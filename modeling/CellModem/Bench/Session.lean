import CellModem.Bench.Work

/-!
Sessions on a virtual clock. The foreground goes through its tasks, and the listener may run beside
it. Whoever need not wait goes on; when all of them wait, the clock jumps to the next deadline or
arrival. A report tells how things stand after each task.
-/

namespace CellModem.Bench

/-- How things stand right after a task. -/
structure Report where
  answer : Answer
  now : Millis
  alignment : Alignment
  listener : ListenerState
  dispatched : UInt32
  discarded : UInt32
  /-- Bytes sent since the report before. -/
  sent : Octets
  /-- Writes so far. -/
  writes : Nat
  /-- Data bytes on the wire. -/
  left : Nat

def Rig.report (rig : Rig) (answer : Answer) : Report × Rig :=
  let station := rig.station
  let sent := station.sent
  ({ answer
     now := station.now
     alignment := station.alignment
     listener := station.listener
     dispatched := station.dispatched
     discarded := station.discarded
     sent := sent.drop rig.reported
     writes := station.requests.length
     left := station.transport.left },
    { rig with reported := sent.length })

/-- Tasks one after another, with reports on those that are done, latest first. -/
inductive Foreground where
  | planned (tasks : List Task)
  | busy (work : Work) (tasks : List Task) (reports : List Report)
  | done (reports : List Report)

/-- Begin task after task until one has to wait, or all are done; then ask the listener to stop if
`stops`. -/
def Foreground.begin (fuel : Nat) (stops : Bool) :
    List Task → List Report → Rig → Turn Foreground
  | [], reports, rig =>
    let station := if stops then rig.station.requestStop else rig.station
    { state := .done reports, rig := { rig with station }, moved := true }
  | task :: tasks, reports, rig =>
    let turn := task.plan.turn fuel rig
    match turn.state with
    | .finished answer =>
      let (report, rig) := turn.rig.report answer
      Foreground.begin fuel stops tasks (report :: reports) rig
    | work => { state := .busy work tasks reports, rig := turn.rig, moved := true }

def Foreground.turn (fuel : Nat) (stops : Bool) : Foreground → Rig → Turn Foreground
  | .planned tasks, rig => Foreground.begin fuel stops tasks [] rig
  | .busy work tasks reports, rig =>
    let turn := work.turn fuel rig
    match turn.state with
    | .finished answer =>
      let (report, rig) := turn.rig.report answer
      Foreground.begin fuel stops tasks (report :: reports) rig
    | work => { state := .busy work tasks reports, rig := turn.rig, moved := turn.moved }
  | .done reports, rig => { state := .done reports, rig, moved := false }

def Foreground.deadlines : Foreground → List Millis
  | .busy work _ _ => work.deadlines
  | .planned _ | .done _ => []

/-- Let the listener go on until it waits or ends, for at most `fuel` steps. -/
def listen (settings : Settings) :
    (fuel : Nat) → Listener.Stage → Rig → (moved : Bool) → Turn (Option Listener.Stage)
  | 0, stage, rig, _ => { state := some stage, rig, moved := true }
  | fuel + 1, stage, rig, moved =>
    match Listener.step settings stage rig.station with
    | (.moved stage, station) => listen settings fuel stage { rig with station } true
    | (.waiting stage, station) => { state := some stage, rig := { rig with station }, moved }
    | (.finished (), station) => { state := none, rig := { rig with station }, moved := true }

/-- The foreground and the listener that runs beside it, if it does. -/
structure Scene where
  settings : Settings := {}
  listener : Option Listener.Stage := none
  foreground : Foreground
  /-- Whether the foreground asks the listener to stop at its end. -/
  stops : Bool := false

namespace Scene

/-- A turn of both, the listener first. -/
def turn (fuel : Nat) (scene : Scene) (rig : Rig) : Turn Scene :=
  let one : Turn (Option Listener.Stage) :=
    match scene.listener with
    | some stage => listen scene.settings fuel stage rig false
    | none => { state := none, rig, moved := false }
  let two := scene.foreground.turn fuel scene.stops one.rig
  { state := { scene with listener := one.state, foreground := two.state }
    rig := two.rig
    moved := one.moved || two.moved }

/-- The next moment at which something happens by itself. -/
def nextMoment? (scene : Scene) (rig : Rig) : Option Millis :=
  ((scene.listener.bind Listener.Stage.deadline?).toList ++ scene.foreground.deadlines ++
    (rig.station.transport.nextArrival? rig.station.now).toList).min?

/-- Play a scene to its end, where the reports of the foreground are left. None if it never ends, or
not within `fuel` turns. -/
def play : (fuel : Nat) → Scene → Rig → Option (List Report × Rig)
  | 0, _, _ => none
  | fuel + 1, scene, rig =>
    let turn := scene.turn fuel rig
    match turn.state.listener, turn.state.foreground with
    | none, .done reports => some (reports.reverse, turn.rig)
    | _, _ =>
      if turn.moved then play fuel turn.state turn.rig
      else
        match turn.state.nextMoment? turn.rig with
        | none => none
        | some moment =>
          let station := turn.rig.station.passTo moment
          play fuel turn.state { turn.rig with station }

end Scene

/-- A part of a session: a task alone, or tasks beside the listener. -/
inductive Part where
  | task (task : Task)
  | run (tasks : List Task) (stops : Bool)

inductive Outcome where
  | reported (report : Report)
  /-- The reports on the tasks beside the listener, and one at the end of both. -/
  | ran (inner : List Report) (report : Report)
  | stuck

def Part.scene (rig : Rig) : Part → Scene
  | .task one => { foreground := .planned [one] }
  | .run tasks stops =>
    { settings := rig.listener.getD {}
      listener := rig.listener.map fun _ => .starting
      foreground := .planned tasks
      stops }

/-- Go through the parts of a session, up to one that gets stuck. -/
def playParts (fuel : Nat) : List Part → Rig → List Outcome
  | [], _ => []
  | part :: parts, rig =>
    match part, (part.scene rig).play fuel rig with
    | .run _ _, some (inner, rig) =>
      let (report, rig) := rig.report .nothing
      .ran inner report :: playParts fuel parts rig
    | .task _, some (report :: _, rig) => .reported report :: playParts fuel parts rig
    | .task _, some ([], _) | _, none => [.stuck]

/-- Turns and steps after which a part counts as stuck. A listener that nobody stops goes on for
ever, so a bound is needed; this one is far beyond what a part that ends takes. -/
def patience : Nat := 10000000

/-- A session with a modem, from the start of the clock. -/
def session (modem : Modem) (parts : List Part) : List Outcome :=
  playParts patience parts { station := { transport := modem } }

end CellModem.Bench
