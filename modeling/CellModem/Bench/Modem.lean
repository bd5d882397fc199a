import CellModem.Line
import CellModem.Transport

/-!
A scripted modem: it answers known requests with prepared packets, which arrive at set times. What
it has sent is a queue that is read from the front, so a packet that arrives late holds up those
behind it.
-/

namespace CellModem.Bench

/-- What a reader finds when it comes to a packet. -/
inductive Content where
  | data (bytes : Octets)
  /-- The stream ends. -/
  | ended
  /-- Reading fails. -/
  | broken
  /-- Reading fails, and so does asking whether there is something to read. -/
  | unready
  deriving DecidableEq, Repr

/-- A packet and the time it takes from the moment it is queued. -/
structure Draft where
  content : Content
  delay : Millis := 0
  deriving DecidableEq, Repr

structure Packet where
  content : Content
  arrival : Millis
  deriving DecidableEq, Repr

/-- What happens to a write. -/
inductive WritePlan where
  | accept
  /-- Take so many bytes at most; no reply unless that is all of them. -/
  | take (count : Nat)
  | fail
  | hang
  | failFlush
  | hangFlush
  deriving DecidableEq, Repr

inductive FlushPlan where
  | pass
  | fail
  | hang
  deriving DecidableEq, Repr

/-- A request and its replies, of which the last one is used again and again. -/
structure Rule where
  request : Octets
  replies : List (List Draft)
  deriving DecidableEq, Repr

structure Modem where
  wire : List Packet := []
  rules : List Rule := []
  /-- Reply to a request without a rule. -/
  fallback : List Draft := [{ content := .data (Octets.ofText "ERROR\r\n") }]
  writes : List WritePlan := []
  flush : FlushPlan := .pass
  /-- Bytes that one read yields at most. -/
  chunk : Option Nat := none
  /-- Whether reading an empty wire finds the end of the stream instead of waiting. -/
  endsWhenIdle : Bool := false
  deriving Repr

namespace Modem

/-- Put packets behind those on the wire. -/
def queue (modem : Modem) (now : Millis) (drafts : List Draft) : Modem :=
  let packets := drafts.map fun draft =>
    { content := draft.content, arrival := now + draft.delay }
  { modem with wire := modem.wire ++ packets }

/-- The request without the line end behind it. -/
def bareRequest (request : Octets) : Octets :=
  (request.reverse.dropWhile fun b =>
    b == Line.lineFeed || b == Line.carriageReturn).reverse

/-- Reply of the first rule for a request, and the rules as they are after it. -/
def reply? (request : Octets) : List Rule → Option (List Draft × List Rule)
  | [] => none
  | rule :: rules =>
    if rule.request = request then
      match rule.replies with
      | [] => some ([], rule :: rules)
      | [last] => some (last, rule :: rules)
      | next :: later => some (next, { rule with replies := later } :: rules)
    else (reply? request rules).map fun (drafts, rules) => (drafts, rule :: rules)

/-- Take a whole request and queue the reply to it. -/
def accept (modem : Modem) (now : Millis) (request : Octets) : Modem :=
  match reply? (bareRequest request) modem.rules with
  | some (drafts, rules) => { modem with rules }.queue now drafts
  | none => modem.queue now modem.fallback

/-- A read of at most `room` bytes. It never joins two packets. -/
def read (modem : Modem) (now : Millis) (room : Nat) : Attempt (Chunk room) × Modem :=
  match modem.wire with
  | [] =>
    if modem.endsWhenIdle then (.done ⟨[], Nat.zero_le _⟩, modem) else (.waiting, modem)
  | packet :: wire =>
    if now < packet.arrival then (.waiting, modem)
    else
      match packet.content with
      | .ended => (.done ⟨[], Nat.zero_le _⟩, { modem with wire })
      | .broken | .unready => (.failed, { modem with wire })
      | .data bytes =>
        let count := min room (modem.chunk.getD bytes.length)
        let left := bytes.drop count
        let wire := if left.isEmpty then wire else { packet with content := .data left } :: wire
        (.done ⟨bytes.take count,
            Nat.le_trans (List.length_take_le _ _) (Nat.min_le_left _ _)⟩, { modem with wire })

/-- Whether the first packet is there. -/
def ready (modem : Modem) (now : Millis) : Option Bool × Modem :=
  match modem.wire with
  | [] => (some false, modem)
  | packet :: wire =>
    if now < packet.arrival then (some false, modem)
    else
      match packet.content with
      | .unready => (none, { modem with wire })
      | .data _ | .ended | .broken => (some true, modem)

def write (modem : Modem) (now : Millis) (request : Octets) : Attempt Nat × Modem :=
  let plan := modem.writes.headD .accept
  let modem := { modem with writes := modem.writes.drop 1, flush := .pass }
  match plan with
  | .fail => (.failed, modem)
  | .hang => (.waiting, modem)
  | .take count =>
    if count < request.length then (.done count, modem)
    else (.done request.length, modem.accept now request)
  | .accept => (.done request.length, modem.accept now request)
  | .failFlush => (.done request.length, { modem.accept now request with flush := .fail })
  | .hangFlush => (.done request.length, { modem.accept now request with flush := .hang })

def flushed (modem : Modem) : Attempt Unit × Modem :=
  match modem.flush with
  | .pass => (.done (), modem)
  | .fail => (.failed, { modem with flush := .pass })
  | .hang => (.waiting, modem)

/-- Data bytes on the wire, arrived or not. -/
def left (modem : Modem) : Nat :=
  (modem.wire.flatMap fun packet =>
    match packet.content with
    | .data bytes => bytes
    | .ended | .broken | .unready => []).length

/-- When the first packet arrives, if it has not yet. -/
def nextArrival? (modem : Modem) (now : Millis) : Option Millis :=
  match modem.wire with
  | packet :: _ => if now < packet.arrival then some packet.arrival else none
  | [] => none

/-- A write that did not go through at once never does. -/
instance : Transport Modem where
  ready now modem := modem.ready now
  read now room modem := modem.read now room
  write now request modem := modem.write now request
  awaitWrite _ modem := (.waiting, modem)
  flush _ modem := modem.flushed
  awaitFlush _ modem := (.waiting, modem)

end Modem

end CellModem.Bench
