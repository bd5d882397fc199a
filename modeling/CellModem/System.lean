import CellModem.Dialogue
import CellModem.Listener
import CellModem.Log

/-!
Any number of users of one station: handles on which programs run, and listeners. A schedule says
whose turn it is, and when time passes; between two steps of one user all others may take theirs.
Notes tell who obtained the lock, who accessed the transport and what came of it.
-/

namespace CellModem

/-- What is done on the transport in one go. -/
inductive Operation where
  | exchange (call : Call)
  /-- One look of a listener, whatever it finds being handed on. -/
  | poll (settings : Settings)

/-- How far an operation has come. -/
inductive Job where
  | exchange (call : Call) (stage : Exchange.Stage)
  | poll (settings : Settings) (stage : Sweep.Stage)

inductive Job.Outcome where
  | exchanged (result : Exchange.Result)
  | polled (result : Sweep.Result)

namespace Operation

def start : Operation → Job
  | .exchange call => .exchange call .queued
  | .poll settings => .poll settings .queued

/-- Whether it may go for the lock. A request that is too long is refused before. -/
def isSendable : Operation → Bool
  | .exchange call => call.request?.isSome
  | .poll _ => true

end Operation

namespace Job

def operation : Job → Operation
  | .exchange call _ => .exchange call
  | .poll settings _ => .poll settings

def isQueued : Job → Bool
  | .exchange _ .queued | .poll _ .queued => true
  | .exchange _ _ | .poll _ _ => false

variable {τ : Type} [Transport τ]

def step : Job → Station τ → Progress Job Outcome × Station τ
  | .exchange call stage, station =>
    match Exchange.step call stage station with
    | (.moved stage, station) => (.moved (.exchange call stage), station)
    | (.waiting stage, station) => (.waiting (.exchange call stage), station)
    | (.finished result, station) => (.finished (.exchanged result), station)
  | .poll settings stage, station =>
    match Sweep.step settings.responseTimeout stage station with
    | (.moved stage, station) => (.moved (.poll settings stage), station)
    | (.waiting stage, station) => (.waiting (.poll settings stage), station)
    | (.finished result, station) =>
      (.finished (.polled result), (Listener.swept settings result station).2)

end Job

/-- A user of the station. -/
inductive Actor (α : Type) where
  | absent
  | talk (conversation : Conversation α)
  | listener (settings : Settings) (stage : Listener.Stage)

namespace Actor

variable {α τ : Type}

/-- What the user is doing on the transport, or going to do. -/
def job? : Actor α → Option Job
  | .talk ⟨.ask call _, stage⟩ => some (.exchange call stage)
  | .listener settings (.switchingOn stage) =>
    some (.exchange (Listener.call settings Listener.switchOn) stage)
  | .listener settings (.switchingOff stage) =>
    some (.exchange (Listener.call settings Listener.switchOff) stage)
  | .listener settings (.sweeping stage) => some (.poll settings stage)
  | .absent | .talk ⟨.done _, _⟩ | .listener _ .starting | .listener _ .choosing
  | .listener _ (.pausing _) | .listener _ .stopping => none

/-- Whether there is room for another user in its place. -/
def isFree : Actor α → Bool
  | .absent | .talk ⟨.done _, _⟩ => true
  | .talk ⟨.ask _ _, _⟩ | .listener _ _ => false

def step [Transport τ] : Actor α → Station τ → Actor α × Station τ
  | .absent, station => (.absent, station)
  | .talk conversation, station =>
    match conversation.step station with
    | (.moved next, station) | (.waiting next, station) => (.talk next, station)
    | (.finished value, station) => (.talk { program := .done value }, station)
  | .listener settings stage, station =>
    match Listener.step settings stage station with
    | (.moved next, station) | (.waiting next, station) => (.listener settings next, station)
    | (.finished _, station) => (.absent, station)

end Actor

inductive Note (ι : Type) where
  /-- The lock was obtained at that moment. -/
  | began (actor : ι) (operation : Operation) (moment : Millis)
  | accessed (actor : ι) (operation : Operation) (access : Access)
  | ended (actor : ι) (operation : Operation) (outcome : Job.Outcome)

structure System (ι α τ : Type) where
  station : Station (Logged τ)
  actors : ι → Actor α := fun _ => .absent
  /-- In order. -/
  notes : List (Note ι) := []

inductive Choice (ι α : Type) where
  /-- A handle goes through a program. -/
  | talk (actor : ι) (program : Dialogue α)
  | listen (actor : ι) (settings : Settings)
  | act (actor : ι)
  | pass (moment : Millis)
  | requestStop

namespace System

variable {ι α τ : Type}

/-- Nobody is there yet, and nothing has happened. -/
def start (transport : τ) (board : Bulletin Signal) : System ι α τ :=
  { station := { transport := { transport }, board } }

section Actors

variable [DecidableEq ι]

def put (system : System ι α τ) (place : ι) (actor : Actor α) : System ι α τ :=
  { system with actors := fun other => if other = place then actor else system.actors other }

/-- Put a user in a place, if it is free. -/
def seat (system : System ι α τ) (place : ι) (actor : Actor α) : System ι α τ :=
  if (system.actors place).isFree then system.put place actor else system

end Actors

variable [Transport τ]

/-- What a step adds to the log. -/
def accesses (before after : Station (Logged τ)) : List Access :=
  after.transport.log.drop before.transport.log.length

/-- What there is to note of the next step of a job. -/
def notesOn (station : Station (Logged τ)) (place : ι) (job : Job) : List (Note ι) :=
  let (progress, next) := job.step station
  let begins := job.isQueued && !station.locked && job.operation.isSendable
  (if begins then [.began place job.operation station.now] else []) ++
    (accesses station next).map (.accessed place job.operation) ++
    progress.result?.toList.map (.ended place job.operation)

variable [DecidableEq ι]

/-- Let a user take a step. -/
def act (system : System ι α τ) (place : ι) : System ι α τ :=
  let (actor, station) := (system.actors place).step system.station
  let news := ((system.actors place).job?.map (notesOn system.station place)).getD []
  { system.put place actor with station, notes := system.notes ++ news }

def step (system : System ι α τ) : Choice ι α → System ι α τ
  | .talk place program => system.seat place (.talk { program })
  | .listen place settings => system.seat place (.listener settings .starting)
  | .act place => system.act place
  | .pass moment => { system with station := system.station.passTo moment }
  | .requestStop => { system with station := system.station.requestStop }

/-- Follow a schedule. -/
def run (system : System ι α τ) (schedule : List (Choice ι α)) : System ι α τ :=
  schedule.foldl step system

theorem run_append (system : System ι α τ) (schedule later : List (Choice ι α)) :
    system.run (schedule ++ later) = (system.run schedule).run later :=
  List.foldl_append

theorem run_concat (system : System ι α τ) (schedule : List (Choice ι α)) (choice : Choice ι α) :
    system.run (schedule ++ [choice]) = (system.run schedule).step choice :=
  run_append system schedule [choice]

end System

end CellModem
