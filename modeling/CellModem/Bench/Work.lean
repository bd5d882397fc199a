import CellModem.Bench.Rig

/-!
Tasks of a session and how far they have come. Giving work a turn lets it go on until it waits or
ends; the turn also tells whether anything happened, since then others who wait may go on too.
-/

namespace CellModem.Bench

inductive Action where
  | act (deed : Deed)
  | talk (talk : Talk)
  | sleep (duration : Millis)
  | awaitListener (state : ListenerState)
  | awaitStop
  deriving Repr

structure Step where
  action : Action
  settings : Settings := {}

/-- A step, or two tasks side by side. -/
inductive Task where
  | single (step : Step)
  | both (first second : Task)

/-- How far a task has come. -/
inductive Work where
  | planned (step : Step)
  | talking (talk : Conversation Answer)
  | sleeping (timer : Timer)
  | awaitingListener (state : ListenerState)
  | awaitingStop
  | both (first second : Work)
  | finished (answer : Answer)

def Task.plan : Task → Work
  | .single step => .planned step
  | .both first second => .both first.plan second.plan

/-- How something stands after its turn. -/
structure Turn (α : Type) where
  state : α
  rig : Rig
  /-- Whether anything happened. -/
  moved : Bool

/-- Let a conversation go on until it waits or ends, for at most `fuel` steps. -/
def converse : (fuel : Nat) → Conversation Answer → Rig → (moved : Bool) → Turn Work
  | 0, talk, rig, _ => { state := .talking talk, rig, moved := true }
  | fuel + 1, talk, rig, moved =>
    match talk.step rig.station with
    | (.moved talk, station) => converse fuel talk { rig with station } true
    | (.waiting talk, station) => { state := .talking talk, rig := { rig with station }, moved }
    | (.finished answer, station) =>
      { state := .finished answer, rig := { rig with station }, moved := true }

/-- End if `ready`, and wait otherwise. -/
def Work.when (ready : Bool) (work : Work) (rig : Rig) : Turn Work :=
  if ready then { state := .finished .nothing, rig, moved := true }
  else { state := work, rig, moved := false }

/-- A turn of work that has begun and is not divided. -/
def Work.advance (fuel : Nat) : Work → Rig → Turn Work
  | .talking talk, rig => converse fuel talk rig false
  | .sleeping timer, rig =>
    match timer.ask rig.station.now with
    | some timer => { state := .sleeping timer, rig, moved := false }
    | none => { state := .finished .nothing, rig, moved := true }
  | .awaitingListener state, rig =>
    Work.when (rig.station.listener == state) (.awaitingListener state) rig
  | .awaitingStop, rig => Work.when rig.station.stopRequested .awaitingStop rig
  | work, rig => { state := work, rig, moved := false }

/-- The first turn of a step. -/
def Step.begin (fuel : Nat) (step : Step) (rig : Rig) : Turn Work :=
  let { action, settings } := step
  match action with
  | .act deed =>
    let (answer, rig) := deed.perform settings rig
    { state := .finished answer, rig, moved := true }
  | .talk talk => converse fuel { program := Client.perform settings talk.action } rig true
  | .sleep duration =>
    { (Work.sleeping (.start rig.station.now duration)).advance fuel rig with moved := true }
  | .awaitListener state =>
    { (Work.awaitingListener state).advance fuel rig with moved := true }
  | .awaitStop => { Work.awaitingStop.advance fuel rig with moved := true }

/-- Two pieces of work side by side end together. -/
def Work.join : Work → Work → Work
  | .finished a, .finished b => .finished (.both a b)
  | first, second => .both first second

/-- A turn of any work. Of two side by side the first one goes first. -/
def Work.turn (fuel : Nat) : Work → Rig → Turn Work
  | .planned step, rig => step.begin fuel rig
  | .both first second, rig =>
    let one := first.turn fuel rig
    let two := second.turn fuel one.rig
    { state := .join one.state two.state, rig := two.rig, moved := one.moved || two.moved }
  | work, rig => work.advance fuel rig

/-- Moments at which the work goes on by itself. -/
def Work.deadlines : Work → List Millis
  | .talking talk => talk.stage.deadline?.toList
  | .sleeping timer => [timer.deadline]
  | .both first second => first.deadlines ++ second.deadlines
  | .planned _ | .awaitingListener _ | .awaitingStop | .finished _ => []

end CellModem.Bench
