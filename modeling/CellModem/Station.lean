import CellModem.Bulletin
import CellModem.Signal
import CellModem.Transport

/-!
What all readers of one modem share: the transport and its lock, where the byte stream stands, the
board of signal readings, the state of the listener and a journal of what happened. Every change
goes through one of the operations here, which also writes the journal.
-/

namespace CellModem

/-- Where the byte stream stands relative to lines and responses, as the last reader left it. -/
inductive Alignment where
  | aligned
  /-- A read stopped within a line, the rest of which is still to come. -/
  | midLine
  /-- A command was given up before its final result. -/
  | awaitingVerdict
  deriving DecidableEq, Repr

inductive ListenerState where
  | stopped
  /-- Waiting for the next poll. -/
  | idle
  /-- Looking for input. -/
  | reading
  /-- Handing on what was read. -/
  | dispatching
  deriving DecidableEq, Repr

/-- What a read is for. -/
inductive Purpose where
  /-- To get rid of what an earlier reader left behind. -/
  | realignment
  | response
  /-- To collect what the modem sent unasked. -/
  | sweep
  deriving DecidableEq, Repr

inductive Event where
  | locked
  | unlocked
  /-- The transport was asked for input; none if that failed. -/
  | probed (ready : Option Bool)
  | received (purpose : Purpose) (bytes : Octets)
  | readFailed (purpose : Purpose)
  /-- A request was handed to the transport. -/
  | offered (request : Octets)
  /-- These bytes of it were taken. -/
  | sent (bytes : Octets)
  | writeFailed
  | flushed
  | flushFailed
  | aligned (alignment : Alignment)
  | published (purpose : Purpose) (signal : Signal)
  | listener (state : ListenerState)
  deriving Repr

structure Station (τ : Type) where
  transport : τ
  now : Millis := 0
  /-- Whether a reader has the transport to itself. -/
  locked : Bool := false
  alignment : Alignment := .aligned
  board : Bulletin Signal := {}
  listener : ListenerState := .stopped
  listenerTaken : Bool := false
  stopRequested : Bool := false
  /-- Readings that the listener published. -/
  dispatched : UInt32 := 0
  /-- Lines that the listener dropped. -/
  discarded : UInt32 := 0
  /-- What happened, latest first. -/
  journal : List Event := []

namespace Station

variable {τ : Type}

/-- The same station at a later moment. The clock never goes back. -/
def passTo (station : Station τ) (moment : Millis) : Station τ :=
  { station with now := max station.now moment }

def record (station : Station τ) (event : Event) : Station τ :=
  { station with journal := event :: station.journal }

def lock (station : Station τ) : Station τ :=
  { station with locked := true }.record .locked

def unlock (station : Station τ) : Station τ :=
  { station with locked := false }.record .unlocked

def align (station : Station τ) (alignment : Alignment) : Station τ :=
  { station with alignment }.record (.aligned alignment)

def publish (station : Station τ) (purpose : Purpose) (signal : Signal) : Station τ :=
  { station with board := station.board.post signal }.record (.published purpose signal)

def publishAll (station : Station τ) (purpose : Purpose) (signals : List Signal) : Station τ :=
  signals.foldl (fun station signal => station.publish purpose signal) station

def setListener (station : Station τ) (state : ListenerState) : Station τ :=
  { station with listener := state }.record (.listener state)

def requestStop (station : Station τ) : Station τ :=
  { station with stopRequested := true }

def clearStop (station : Station τ) : Station τ :=
  { station with stopRequested := false }

/-- Claim the one listener; nobody may claim it twice. -/
def takeListener (station : Station τ) : Except Error (Station τ) :=
  if station.listenerTaken then .error .invalidArgument
  else .ok { station with listenerTaken := true }

/-- Both counts start again from zero behind their largest value. -/
def count (station : Station τ) (dispatched discarded : Nat) : Station τ :=
  { station with
    dispatched := station.dispatched + UInt32.ofNat dispatched
    discarded := station.discarded + UInt32.ofNat discarded }

section Calls

variable [Transport τ]

def probe (station : Station τ) : Option Bool × Station τ :=
  let (ready, transport) := Transport.ready station.now station.transport
  (ready, { station with transport }.record (.probed ready))

/-- Enter into the journal how a read stands. -/
def noteRead {room : Nat} (station : Station τ) (purpose : Purpose)
    (attempt : Attempt (Chunk room)) : Station τ :=
  match attempt with
  | .done chunk => station.record (.received purpose chunk.val)
  | .failed => station.record (.readFailed purpose)
  | .waiting => station

def read (station : Station τ) (purpose : Purpose) (room : Nat) :
    Attempt (Chunk room) × Station τ :=
  let (attempt, transport) := Transport.read station.now room station.transport
  (attempt, { station with transport }.noteRead purpose attempt)

/-- Enter into the journal how a write of `request` stands. -/
def noteWrite (station : Station τ) (request : Octets) (attempt : Attempt Nat) : Station τ :=
  match attempt with
  | .done taken => station.record (.sent (request.take taken))
  | .failed => station.record .writeFailed
  | .waiting => station

def write (station : Station τ) (request : Octets) : Attempt Nat × Station τ :=
  let (attempt, transport) := Transport.write station.now request station.transport
  (attempt, ({ station with transport }.record (.offered request)).noteWrite request attempt)

def awaitWrite (station : Station τ) (request : Octets) : Attempt Nat × Station τ :=
  let (attempt, transport) := Transport.awaitWrite station.now station.transport
  (attempt, { station with transport }.noteWrite request attempt)

/-- Enter into the journal how a flush stands. -/
def noteFlush (station : Station τ) (attempt : Attempt Unit) : Station τ :=
  match attempt with
  | .done _ => station.record .flushed
  | .failed => station.record .flushFailed
  | .waiting => station

def flush (station : Station τ) : Attempt Unit × Station τ :=
  let (attempt, transport) := Transport.flush station.now station.transport
  (attempt, { station with transport }.noteFlush attempt)

def awaitFlush (station : Station τ) : Attempt Unit × Station τ :=
  let (attempt, transport) := Transport.awaitFlush station.now station.transport
  (attempt, { station with transport }.noteFlush attempt)

end Calls

end Station

namespace Event

/-- The request that an event hands to the transport. -/
def offered? : Event → Option Octets
  | .offered request => some request
  | _ => none

/-- The bytes that an event has sent. -/
def sentBytes : Event → Octets
  | .sent bytes => bytes
  | _ => []

end Event

namespace Station

variable {τ : Type}

/-- The requests handed to the transport, in order. -/
def requests (station : Station τ) : List Octets :=
  station.journal.reverse.filterMap Event.offered?

/-- All bytes that the transport took, in order. -/
def sent (station : Station τ) : Octets :=
  station.journal.reverse.flatMap Event.sentBytes

end Station

end CellModem
