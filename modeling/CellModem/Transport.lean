import CellModem.Settings
import CellModem.Text.Octets

/-!
The byte transport to the modem, as a class over its own state. A call either completes at once or
has to wait; whoever waits asks again later. Nothing is assumed about a transport but that a read
yields no more bytes than there is room for.
-/

namespace CellModem

/-- How a call on the transport stands. -/
inductive Attempt (α : Type) where
  | done (result : α)
  | failed
  /-- Not yet: ask again. -/
  | waiting
  deriving Repr

/-- What a read with room for so many bytes may yield; no bytes mean the end of the stream. -/
abbrev Chunk (room : Nat) := { bytes : Octets // bytes.length ≤ room }

class Transport (τ : Type) where
  /-- Whether a read would find something; this never waits. -/
  ready : Millis → τ → Option Bool × τ
  read : Millis → (room : Nat) → τ → Attempt (Chunk room) × τ
  /-- Begin to write; the result is the number of bytes taken. -/
  write : Millis → Octets → τ → Attempt Nat × τ
  /-- Ask again for a write that has begun. -/
  awaitWrite : Millis → τ → Attempt Nat × τ
  /-- Begin to flush. -/
  flush : Millis → τ → Attempt Unit × τ
  /-- Ask again for a flush that has begun. -/
  awaitFlush : Millis → τ → Attempt Unit × τ

/-- A moment to stop waiting. It passes no earlier than the second time it is asked about, so that
even a wait of no time lets through what need not wait at all. -/
structure Timer where
  deadline : Millis
  asked : Bool := false
  deriving DecidableEq, Repr

namespace Timer

def start (now duration : Millis) : Timer :=
  { deadline := now + duration }

def hasPassed (timer : Timer) (now : Millis) : Bool :=
  timer.asked && timer.deadline ≤ now

/-- Ask about the timer: none if it has passed. -/
def ask (timer : Timer) (now : Millis) : Option Timer :=
  if timer.hasPassed now then none else some { timer with asked := true }

end Timer

/-- One step of something that may have to wait. -/
inductive Progress (σ α : Type) where
  | moved (state : σ)
  | waiting (state : σ)
  | finished (result : α)
  deriving Repr

def Progress.result? {σ α : Type} : Progress σ α → Option α
  | .finished result => some result
  | .moved _ | .waiting _ => none

end CellModem
