import CellModem.Realignment
import CellModem.Reception

/-!
One command and its response. The transport is locked from the first byte read or written until the
final result, so that exchanges never mix. A reader who gives up within a response leaves a note in
the alignment of the stream.
-/

namespace CellModem

/-- A command to be sent, and the conditions under which its response is read. -/
structure Call where
  command : String
  terminator : String
  timeout : Millis
  /-- Size of the buffer for the response. -/
  size : Nat := Limits.response
  deriving DecidableEq, Repr

namespace Call

/-- The bytes to write, if they are not too many. -/
def request? (call : Call) : Option Octets :=
  let request := Octets.ofText call.command ++ Octets.ofText call.terminator
  if request.length ≤ Limits.request then some request else none

end Call

namespace Exchange

/-- How far an exchange has come. -/
inductive Stage where
  /-- Waiting for the lock. -/
  | queued
  | realigning (request : Octets) (realignment : Realignment)
  /-- The write may have begun already. -/
  | sending (request : Octets) (timer : Timer) (begun : Bool)
  /-- The flush may have begun already. -/
  | flushing (timer : Timer) (begun : Bool)
  | receiving (buffer : Buffer) (timer : Timer)
  deriving DecidableEq, Repr

abbrev Result := Except Error Octets

variable {τ : Type} [Transport τ]

/-- Give the lock back with a result. -/
def finish (station : Station τ) (result : Result) : Progress Stage Result × Station τ :=
  (.finished result, station.unlock)

/-- Give up within the response. -/
def abandon (station : Station τ) (cause : Error) : Progress Stage Result × Station τ :=
  finish (station.align .awaitingVerdict) (.error cause)

/-- Wait in `stage`, unless the time for the response is over. -/
def wait (station : Station τ) (timer : Timer) (stage : Timer → Stage) :
    Progress Stage Result × Station τ :=
  match timer.ask station.now with
  | some timer => (.waiting (stage timer), station)
  | none => abandon station .timeout

/-- Start to write, with the whole time for the response ahead. -/
def startSending (call : Call) (request : Octets) (station : Station τ) : Stage :=
  .sending request (.start station.now call.timeout) false

/-- Act on how a write stands. -/
def sent (request : Octets) (timer : Timer) :
    Attempt Nat × Station τ → Progress Stage Result × Station τ
  | (.waiting, station) => wait station timer fun timer => .sending request timer true
  | (.failed, station) => finish station (.error .transport)
  | (.done taken, station) =>
    if taken = request.length then (.moved (.flushing timer false), station)
    else finish station (.error .transport)

/-- Act on how a flush stands. -/
def flushed (call : Call) (timer : Timer) :
    Attempt Unit × Station τ → Progress Stage Result × Station τ
  | (.waiting, station) => wait station timer fun timer => .flushing timer true
  | (.failed, station) => finish station (.error .transport)
  | (.done _, station) => (.moved (.receiving (.empty call.size) timer), station)

/-- Act on the bytes of one read. -/
def received (timer : Timer) (station : Station τ) :
    Reception.Outcome × List Signal → Progress Stage Result × Station τ
  | (.unfinished buffer, signals) =>
    (.moved (.receiving buffer timer), station.publishAll .response signals)
  | (.ended ending, signals) =>
    let station := station.publishAll .response signals
    let station := if ending.cut then station.align .midLine else station
    match ending.verdict with
    | .accepted => finish station (.ok ending.payload)
    | .refused => finish station (.error .transport)

/-- Go one step: at most one call on the transport and what follows from it. -/
def step (call : Call) : Stage → Station τ → Progress Stage Result × Station τ
  | .queued, station =>
    match call.request? with
    | none => (.finished (.error .invalidArgument), station)
    | some request =>
      if station.locked then (.waiting .queued, station)
      else
        let station := station.lock
        if station.alignment = .aligned then (.moved (startSending call request station), station)
        else (.moved (.realigning request (.start station call.timeout)), station)
  | .realigning request realignment, station =>
    match realignment.step station with
    | (.moved realignment, station) => (.moved (.realigning request realignment), station)
    | (.waiting realignment, station) => (.waiting (.realigning request realignment), station)
    | (.finished _, station) => (.moved (startSending call request station), station)
  | .sending request timer false, station => sent request timer (station.write request)
  | .sending request timer true, station => sent request timer (station.awaitWrite request)
  | .flushing timer false, station => flushed call timer station.flush
  | .flushing timer true, station => flushed call timer station.awaitFlush
  | .receiving buffer timer, station =>
    if buffer.room = 0 then abandon station .transport
    else
      match station.read .response buffer.room with
      | (.waiting, station) => wait station timer fun timer => .receiving buffer timer
      | (.failed, station) => finish station (.error .transport)
      | (.done chunk, station) =>
        if chunk.val = [] then finish station (.error .transport)
        else
          received timer station (Reception.absorb (Octets.ofText call.command) buffer chunk)

/-- When to ask again at the latest. -/
def Stage.deadline? : Stage → Option Millis
  | .queued => none
  | .realigning _ realignment => some realignment.timer.deadline
  | .sending _ timer _ | .flushing timer _ | .receiving _ timer => some timer.deadline

end Exchange

end CellModem
