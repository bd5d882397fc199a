import CellModem.Buffer
import CellModem.Signal

/-!
Taking in the response to a command, read by read. Bytes that have come in are cut into lines as
far as they are complete: data lines are kept at the front of the buffer, signal reports are passed
on, and a final result ends the response. Where the stream was cut into reads matters only for a
final result that lacks its line end.
-/

namespace CellModem.Reception

/-- What going through the complete lines of a buffer comes to. -/
structure Digest where
  /-- The buffer, with all lines passed over that were looked at. -/
  buffer : Buffer
  signals : List Signal := []
  verdict : Option Line.Verdict := none
  deriving Repr

/-- Go through the lines in the course of `command`, up to its final result. -/
def digest (command : Octets) (buffer : Buffer) : Digest :=
  match buffer.nextLine? with
  | none => { buffer }
  | some span =>
    match Line.kind command (buffer.line span) with
    | .verdict v => { buffer := buffer.skip span, verdict := some v }
    | .notice =>
      let later := digest command (buffer.skip span)
      { later with signals := (Signal.ofLine? (buffer.line span)).toList ++ later.signals }
    | .data => digest command (buffer.keep span)
    | .blank | .echo => digest command (buffer.skip span)
termination_by buffer.filled - buffer.scanned
decreasing_by
  · exact Buffer.unread_skip_lt span
  · exact Buffer.unread_keep_lt span
  · exact Buffer.unread_skip_lt span

/-- Go through the lines behind a final result, of which only signal reports count. -/
def drain (buffer : Buffer) : List Signal × Buffer :=
  match buffer.nextLine? with
  | none => ([], buffer)
  | some span =>
    let (later, left) := drain (buffer.skip span)
    match Line.idleKind (buffer.line span) with
    | .notice => ((Signal.ofLine? (buffer.line span)).toList ++ later, left)
    | .blank | .echo | .verdict _ | .data => (later, left)
termination_by buffer.filled - buffer.scanned
decreasing_by exact Buffer.unread_skip_lt span

structure Ending where
  verdict : Line.Verdict
  /-- The data lines, separated by line feeds. -/
  payload : Octets
  /-- An unfinished line came with the final result. -/
  cut : Bool
  deriving DecidableEq, Repr

inductive Outcome where
  | unfinished (buffer : Buffer)
  | ended (ending : Ending)
  deriving DecidableEq, Repr

/-- The kept lines, without the line feed behind the last one. -/
def payload (buffer : Buffer) : Octets :=
  buffer.storage.take (buffer.kept - 1)

/-- Take in the bytes of one read. Without a final result an unfinished rest may still be one that
lacks its line end. -/
def absorb (command : Octets) (buffer : Buffer) (chunk : Chunk buffer.room) :
    Outcome × List Signal :=
  let { buffer, signals, verdict } := digest command (buffer.fill chunk)
  match verdict with
  | some verdict =>
    let (later, left) := drain buffer
    (.ended { verdict, payload := payload buffer, cut := !left.pending.isEmpty }, signals ++ later)
  | none =>
    match Line.openVerdict? buffer.pending with
    | some verdict => (.ended { verdict, payload := payload buffer, cut := false }, signals)
    | none => (.unfinished buffer.compact, signals)

end CellModem.Reception
