import CellModem.Reception
import CellModem.Station

/-!
Getting rid of what an earlier reader left behind, so that the next one starts at a line of its
own: the rest of a line that was cut, or all lines of a given up response up to its final result.
Signal reports on the way are passed on. The stream counts as aligned afterwards, however this
ended.
-/

namespace CellModem

/-- What is still to be dropped. -/
structure Purge where
  alignment : Alignment
  buffer : Buffer
  deriving DecidableEq, Repr

namespace Purge

/-- The stream is aligned and no line has begun. -/
def isDone (purge : Purge) : Bool :=
  purge.alignment == .aligned && purge.buffer.pending.isEmpty

/-- Go through lines that nobody waits for. The first one is dropped if it is the rest of a cut
line, and a final result ends a given up response. -/
def sift (alignment : Alignment) (buffer : Buffer) : Purge × List Signal :=
  match buffer.nextLine? with
  | none => ({ alignment, buffer }, [])
  | some span =>
    match alignment, Line.idleKind (buffer.line span) with
    | .midLine, _ => sift .aligned (buffer.skip span)
    | alignment, .notice =>
      let (purge, later) := sift alignment (buffer.skip span)
      (purge, (Signal.ofLine? (buffer.line span)).toList ++ later)
    | _, .verdict _ => sift .aligned (buffer.skip span)
    | alignment, .blank | alignment, .echo | alignment, .data => sift alignment (buffer.skip span)
termination_by buffer.filled - buffer.scanned
decreasing_by all_goals exact Buffer.unread_skip_lt span

/-- Take in the bytes of one read. An unfinished line that fills the whole buffer is dropped. -/
def absorb (purge : Purge) (chunk : Chunk purge.buffer.room) : Purge × List Signal :=
  let ({ alignment, buffer }, signals) := sift purge.alignment (purge.buffer.fill chunk)
  let buffer := buffer.compact
  ({ alignment, buffer := if buffer.room = 0 then buffer.discard else buffer }, signals)

end Purge

structure Realignment where
  purge : Purge
  timer : Timer
  deriving DecidableEq, Repr

namespace Realignment

variable {τ : Type} [Transport τ]

def start (station : Station τ) (timeout : Millis) : Realignment :=
  { purge := { alignment := station.alignment, buffer := .empty Limits.response }
    timer := .start station.now timeout }

/-- Read and drop until a line boundary behind the leftover is reached. The result says whether it
was, or what prevented it. -/
def step (realignment : Realignment) (station : Station τ) :
    Progress Realignment (Except Error Unit) × Station τ :=
  let { purge, timer } := realignment
  if purge.isDone then (.finished (.ok ()), station.align .aligned)
  else
    match station.read .realignment purge.buffer.room with
    | (.waiting, station) =>
      match timer.ask station.now with
      | some timer => (.waiting { purge, timer }, station)
      | none => (.finished (.error .timeout), station.align .aligned)
    | (.failed, station) => (.finished (.error .transport), station.align .aligned)
    | (.done chunk, station) =>
      if chunk.val = [] then (.finished (.error .transport), station.align .aligned)
      else
        let (purge, signals) := purge.absorb chunk
        (.moved { purge, timer }, station.publishAll .realignment signals)

end Realignment

end CellModem
