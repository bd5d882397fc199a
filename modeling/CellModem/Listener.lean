import CellModem.Exchange
import CellModem.Sweep

/-!
The listener: between the exchanges of others it reads what the modem sends unasked, publishes the
signal reports and drops the rest, until it is asked to stop. If the settings say so, it switches
signal reports on before its first look and off after its last.
-/

namespace CellModem.Listener

/-- Switch signal reports on. -/
def switchOn : String := "AT%CESQ=1"

/-- Switch signal reports off. -/
def switchOff : String := "AT%CESQ=0"

inductive Stage where
  | starting
  | switchingOn (stage : Exchange.Stage)
  /-- Looking for a request to stop. -/
  | choosing
  | sweeping (stage : Sweep.Stage)
  | pausing (timer : Timer)
  | switchingOff (stage : Exchange.Stage)
  | stopping
  deriving DecidableEq, Repr

def call (settings : Settings) (command : String) : Call :=
  { command, terminator := settings.terminator, timeout := settings.responseTimeout }

/-- What becomes of the bytes of one sweep: the signals to publish, and the number of lines to drop.
Blank lines do not count, and an unfinished last line counts as one. -/
structure Dispatch where
  signals : List Signal
  dropped : Nat
  deriving DecidableEq, Repr

def Dispatch.ofBuffer (buffer : Buffer) : Dispatch :=
  match buffer.nextLine? with
  | none => { signals := [], dropped := if buffer.pending.isEmpty then 0 else 1 }
  | some span =>
    let later := ofBuffer (buffer.skip span)
    match Line.idleKind (buffer.line span) with
    | .blank => later
    | .notice =>
      match Signal.ofLine? (buffer.line span) with
      | some signal => { later with signals := signal :: later.signals }
      | none => { later with dropped := later.dropped + 1 }
    | .echo | .verdict _ | .data => { later with dropped := later.dropped + 1 }
termination_by buffer.filled - buffer.scanned
decreasing_by exact Buffer.unread_skip_lt span

variable {τ : Type} [Transport τ]

/-- Publish and count what a sweep brought in. -/
def dispatch (buffer : Buffer) (station : Station τ) : Station τ :=
  let { signals, dropped } := Dispatch.ofBuffer buffer
  ((station.setListener .dispatching).publishAll .sweep signals).count signals.length dropped

/-- There was nothing to read. -/
def pause (settings : Settings) (station : Station τ) : Stage × Station τ :=
  (.pausing (.start station.now settings.pollInterval), station.setListener .idle)

/-- Act on the result of a sweep: hand on what came in, or pause. -/
def swept (settings : Settings) (result : Sweep.Result) (station : Station τ) :
    Stage × Station τ :=
  match result with
  | .ok (some buffer) =>
    if buffer.filled = 0 then pause settings station
    else (.choosing, (dispatch buffer station).setListener .idle)
  | .ok none | .error _ => pause settings station

def step (settings : Settings) : Stage → Station τ → Progress Stage Unit × Station τ
  | .starting, station =>
    let next := if settings.subscribes then Stage.switchingOn .queued else .choosing
    (.moved next, station.setListener .idle)
  | .switchingOn stage, station =>
    match Exchange.step (call settings switchOn) stage station with
    | (.moved stage, station) => (.moved (.switchingOn stage), station)
    | (.waiting stage, station) => (.waiting (.switchingOn stage), station)
    | (.finished _, station) => (.moved .choosing, station)
  | .choosing, station =>
    if station.stopRequested then
      (.moved (if settings.subscribes then .switchingOff .queued else .stopping), station)
    else (.moved (.sweeping .queued), station.setListener .reading)
  | .sweeping stage, station =>
    match Sweep.step settings.responseTimeout stage station with
    | (.moved stage, station) => (.moved (.sweeping stage), station)
    | (.waiting stage, station) => (.waiting (.sweeping stage), station)
    | (.finished result, station) =>
      let (next, station) := swept settings result station
      (.moved next, station)
  | .pausing timer, station =>
    if station.stopRequested then (.moved .choosing, station)
    else
      match timer.ask station.now with
      | some timer => (.waiting (.pausing timer), station)
      | none => (.moved .choosing, station)
  | .switchingOff stage, station =>
    match Exchange.step (call settings switchOff) stage station with
    | (.moved stage, station) => (.moved (.switchingOff stage), station)
    | (.waiting stage, station) => (.waiting (.switchingOff stage), station)
    | (.finished _, station) => (.moved .stopping, station)
  | .stopping, station => (.finished (), station.clearStop.setListener .stopped)

/-- When to ask again at the latest. -/
def Stage.deadline? : Stage → Option Millis
  | .switchingOn stage | .switchingOff stage => stage.deadline?
  | .sweeping stage => stage.deadline?
  | .pausing timer => some timer.deadline
  | .starting | .choosing | .stopping => none

end CellModem.Listener
