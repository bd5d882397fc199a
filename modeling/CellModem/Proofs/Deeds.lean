import CellModem.Proofs.Actor

/-!
What a user of the station does in the course of a schedule: what its own steps enter in the journal,
and the calls it comes to the end of. Others may take any number of steps in between, and none of
them shows here. An exchange hands over the request of its call once, or not at all if that is too
long, wherever it is interrupted.
-/

namespace CellModem

/-- The state of the listener that an event enters. -/
def Event.state? : Event → Option ListenerState
  | .listener state => some state
  | _ => none

namespace Station

variable {τ : Type}

/-- What has come into the journal since, in order. -/
def news (first last : Station τ) : List Event :=
  (last.journal.take (last.journal.length - first.journal.length)).reverse

/-- Nothing but these events has come into the journal. -/
def Enters (events : List Event) (first last : Station τ) : Prop :=
  last.journal = events.reverse ++ first.journal

variable {first middle last : Station τ} {events later : List Event}

theorem Enters.news_eq (h : Enters events first last) : first.news last = events := by
  have hlength : last.journal.length - first.journal.length = events.reverse.length := by
    rw [h, List.length_append]
    omega
  rw [news, hlength, h, List.take_left, List.reverse_reverse]

theorem Enters.append (h : Enters events first middle) (hlater : Enters later middle last) :
    Enters (events ++ later) first last := by
  rw [Enters, hlater, h, List.reverse_append, List.append_assoc]

/-- The requests among the events are those that were handed over. -/
theorem Enters.requests_eq (h : Enters events first last) :
    last.requests = first.requests ++ events.filterMap Event.offered? := by
  rw [requests, h, List.reverse_append, List.filterMap_append, List.reverse_reverse]
  rfl

/-- What was done meanwhile entered no state of the listener, and left a request to stop alone. -/
def Works (first last : Station τ) : Prop :=
  (∃ events, Enters events first last ∧ events.filterMap Event.state? = []) ∧
    last.stopRequested = first.stopRequested

theorem works_of_same (hjournal : last.journal = first.journal)
    (hstop : last.stopRequested = first.stopRequested) : Works first last :=
  ⟨⟨[], hjournal, rfl⟩, hstop⟩

theorem works_of_record {event : Event} (hevent : event.state? = none)
    (hjournal : last.journal = event :: first.journal)
    (hstop : last.stopRequested = first.stopRequested) : Works first last :=
  ⟨⟨[event], hjournal, by simp [hevent]⟩, hstop⟩

theorem Works.trans (h : Works first middle) (hlater : Works middle last) : Works first last := by
  obtain ⟨⟨events, hevents, hstates⟩, hstop⟩ := h
  obtain ⟨⟨later, hlater, hstates'⟩, hstop'⟩ := hlater
  refine ⟨⟨events ++ later, hevents.append hlater, ?_⟩, hstop'.trans hstop⟩
  rw [List.filterMap_append, hstates, hstates']
  rfl

theorem works_noteRead {room : Nat} (station : Station τ) (purpose : Purpose)
    (attempt : Attempt (Chunk room)) : Works station (station.noteRead purpose attempt) := by
  cases attempt with
  | done chunk => exact works_of_record rfl rfl rfl
  | failed => exact works_of_record rfl rfl rfl
  | waiting => exact works_of_same rfl rfl

theorem works_noteWrite (station : Station τ) (request : Octets) (attempt : Attempt Nat) :
    Works station (station.noteWrite request attempt) := by
  cases attempt with
  | done taken => exact works_of_record rfl rfl rfl
  | failed => exact works_of_record rfl rfl rfl
  | waiting => exact works_of_same rfl rfl

theorem works_noteFlush (station : Station τ) (attempt : Attempt Unit) :
    Works station (station.noteFlush attempt) := by
  cases attempt with
  | done result => exact works_of_record rfl rfl rfl
  | failed => exact works_of_record rfl rfl rfl
  | waiting => exact works_of_same rfl rfl

theorem active_works [Transport τ] : Active (Works (τ := τ)) where
  refl _ := works_of_same rfl rfl
  trans := Works.trans
  lock _ := works_of_record rfl rfl rfl
  unlock _ := works_of_record rfl rfl rfl
  align _ _ := works_of_record rfl rfl rfl
  publishAll station purpose signals := by
    rw [publishAll_eq]
    refine ⟨⟨signals.map (Event.published purpose), rfl, ?_⟩, rfl⟩
    rw [List.filterMap_map]
    exact List.filterMap_eq_nil_iff.mpr fun _ _ => rfl
  probe _ := works_of_record rfl rfl rfl
  read _ purpose _ := works_noteRead _ purpose _
  write station request := by
    have hoffered : Works station ({ station with
        transport := (Transport.write station.now request station.transport).2 }.record
          (.offered request)) := works_of_record rfl rfl rfl
    exact hoffered.trans (works_noteWrite _ request _)
  awaitWrite _ request := works_noteWrite _ request _
  flush _ := works_noteFlush _ _
  awaitFlush _ := works_noteFlush _ _

/-- A request is handed over when the write begins, and never again. -/
theorem attentive_requests [Transport τ] :
    Attentive fun first last : Station τ => last.requests = first.requests where
  toPassive := passive_requests
  awaitWrite station request := congrArg Standing.requests (station.standing_awaitWrite request)
  flush station := congrArg Standing.requests station.standing_flush
  awaitFlush station := congrArg Standing.requests station.standing_awaitFlush

end Station

namespace Exchange

variable {τ : Type}

/-- The request that the next step hands over. -/
def Stage.offers : Stage → List Octets
  | .sending request _ false => [request]
  | .queued | .realigning _ _ | .sending _ _ true | .flushing _ _ | .receiving _ _ => []

/-- The requests that an exchange has handed over when it has come so far. -/
def Offered (call : Call) : Stage → List Octets → Prop
  | .queued, requests => requests = []
  | .realigning request _, requests => call.request? = some request ∧ requests = []
  | .sending request _ false, requests => call.request? = some request ∧ requests = []
  | .sending _ _ true, requests | .flushing _ _, requests | .receiving _ _, requests =>
    requests = call.request?.toList

section Offered

variable {call : Call} {requests : List Octets} (h : requests = call.request?.toList)

/-- What is said of the requests of an exchange after a step. -/
abbrev Offers (call : Call) (requests : List Octets) (outcome : Progress Stage Result × Station τ) :
    Prop :=
  Course.Meets (fun next _ => Offered call next requests)
    (fun _ _ => requests = call.request?.toList) outcome

include h

theorem offers_wait (station : Station τ) (timer : Timer) {stage : Timer → Stage}
    (hstage : ∀ timer, Offered call (stage timer) requests) :
    Offers call requests (wait station timer stage) := by
  unfold wait
  cases timer.ask station.now with
  | some later => exact hstage later
  | none => exact h

theorem offers_sent (request : Octets) (timer : Timer) (outcome : Attempt Nat × Station τ) :
    Offers call requests (sent request timer outcome) := by
  obtain ⟨attempt, station⟩ := outcome
  cases attempt with
  | waiting => exact offers_wait h station timer fun _ => h
  | failed => exact h
  | done taken =>
    by_cases htaken : taken = request.length
    · simp only [sent, htaken, if_true]
      exact h
    · simp only [sent, htaken, if_false]
      exact h

theorem offers_flushed (timer : Timer) (outcome : Attempt Unit × Station τ) :
    Offers call requests (flushed call timer outcome) := by
  obtain ⟨attempt, station⟩ := outcome
  cases attempt with
  | waiting => exact offers_wait h station timer fun _ => h
  | failed => exact h
  | done result => exact h

theorem offers_received (timer : Timer) (station : Station τ)
    (outcome : Reception.Outcome × List Signal) :
    Offers call requests (received timer station outcome) := by
  obtain ⟨outcome, signals⟩ := outcome
  cases outcome with
  | unfinished buffer => exact h
  | ended ending =>
    rw [received_ended]
    exact h

end Offered

variable [Transport τ]

theorem requests_step (call : Call) (stage : Stage) (station : Station τ) :
    (step call stage station).2.requests = station.requests ++ stage.offers := by
  have hother (hstage : ∀ request timer, stage ≠ .sending request timer false) :
      (step call stage station).2.requests = station.requests :=
    step_relates_of_attentive Station.attentive_requests call hstage station
  cases stage with
  | queued => rw [hother (by simp), Stage.offers, List.append_nil]
  | realigning request realignment => rw [hother (by simp), Stage.offers, List.append_nil]
  | sending request timer begun =>
    cases begun with
    | false =>
      have hwritten := congrArg Standing.requests (station.standing_write request)
      exact (sent_relates Station.passive_requests rfl request timer).trans hwritten
    | true => rw [hother (by simp), Stage.offers, List.append_nil]
  | flushing timer begun => rw [hother (by simp), Stage.offers, List.append_nil]
  | receiving buffer timer => rw [hother (by simp), Stage.offers, List.append_nil]

/-- Whatever the station is like at each of its steps, an exchange hands over the request of its call
once, and nothing if that is too long. -/
theorem step_offered {call : Call} {stage : Stage} {requests : List Octets}
    (h : Offered call stage requests) (station : Station τ) :
    Offers call (requests ++ stage.offers) (step call stage station) := by
  cases stage with
  | queued =>
    obtain rfl : requests = [] := h
    unfold step
    cases hrequest : call.request? with
    | none =>
      change [] = call.request?.toList
      rw [hrequest]
      rfl
    | some request =>
      by_cases hlocked : station.locked
      · simp only [hlocked, if_true]
        exact rfl
      · by_cases haligned : station.lock.alignment = .aligned
        · simp only [hlocked, haligned, if_true]
          exact ⟨hrequest, rfl⟩
        · simp only [hlocked, haligned, if_false]
          exact ⟨hrequest, rfl⟩
  | realigning request realignment =>
    obtain ⟨hrequest, rfl⟩ := h
    simp only [step]
    cases hrun : realignment.step station with
    | mk progress next => cases progress <;> exact ⟨hrequest, rfl⟩
  | sending request timer begun =>
    cases begun with
    | false =>
      obtain ⟨hrequest, rfl⟩ := h
      apply offers_sent
      rw [hrequest]
      rfl
    | true =>
      apply offers_sent
      rw [Stage.offers, List.append_nil]
      exact h
  | flushing timer begun =>
    rw [Stage.offers, List.append_nil]
    cases begun <;> exact offers_flushed h timer _
  | receiving buffer timer =>
    rw [Stage.offers, List.append_nil]
    unfold step
    by_cases hfull : buffer.room = 0
    · simp only [hfull, if_true]
      exact h
    · simp only [hfull, if_false]
      cases hrun : station.read .response buffer.room with
      | mk attempt next =>
        cases attempt with
        | waiting => exact offers_wait h next timer fun _ => h
        | failed => exact h
        | done chunk =>
          by_cases hend : chunk.val = []
          · simp only [hend, if_true]
            exact h
          · simp only [hend, if_false]
            exact offers_received h timer next _

end Exchange

/-- What a user does: something that is entered in the journal, or the end of a call. -/
inductive Deed where
  | entered (event : Event)
  | called (call : Call) (result : Exchange.Result)

namespace Deed

def state? : Deed → Option ListenerState
  | .entered event => event.state?
  | .called _ _ => none

def offered? : Deed → Option Octets
  | .entered event => event.offered?
  | .called _ _ => none

def call? : Deed → Option Call
  | .entered _ => none
  | .called call _ => some call

def ofNote? {ι : Type} : Note ι → Option Deed
  | .ended _ (.exchange call) (.exchanged result) => some (.called call result)
  | .ended _ (.exchange _) (.polled _) | .ended _ (.poll _) _ => none
  | .began _ _ _ | .accessed _ _ _ => none

end Deed

/-- What shows of deeds: the states of the listener, the requests that were handed over, and the
calls that were made. -/
structure Conduct where
  states : List ListenerState
  requests : List Octets
  calls : List Call
  deriving DecidableEq, Repr

def conduct (deeds : List Deed) : Conduct where
  states := deeds.filterMap Deed.state?
  requests := deeds.filterMap Deed.offered?
  calls := deeds.filterMap Deed.call?

theorem conduct_append (deeds later : List Deed) :
    conduct (deeds ++ later) =
      ⟨(conduct deeds).states ++ (conduct later).states,
        (conduct deeds).requests ++ (conduct later).requests,
        (conduct deeds).calls ++ (conduct later).calls⟩ := by
  simp only [conduct, List.filterMap_append]

theorem conduct_cons_state (state : ListenerState) (deeds : List Deed) :
    conduct (.entered (.listener state) :: deeds) =
      ⟨state :: (conduct deeds).states, (conduct deeds).requests, (conduct deeds).calls⟩ :=
  rfl

/-- What the journal and the requests say of the entries made in between. -/
theorem conduct_of_enters {τ : Type} {first last : Station τ} {events : List Event}
    {requests : List Octets} (h : first.Enters events last)
    (hrequests : last.requests = first.requests ++ requests) :
    conduct ((first.news last).map .entered) = ⟨events.filterMap Event.state?, requests, []⟩ := by
  have hoffered : events.filterMap Event.offered? = requests :=
    List.append_cancel_left (h.requests_eq.symm.trans hrequests)
  rw [h.news_eq, conduct, ← hoffered, List.filterMap_map, List.filterMap_map, List.filterMap_map]
  have hcalls : events.filterMap (Deed.call? ∘ Deed.entered) = [] :=
    List.filterMap_eq_nil_iff.mpr fun _ _ => rfl
  rw [hcalls]
  rfl

section Deeds

variable {ι α τ : Type} [Transport τ]

/-- The call that a step of a job comes to the end of. -/
def Job.calls : Job → Station τ → List Deed
  | .exchange call stage, station =>
    (Exchange.step call stage station).1.result?.toList.map (.called call)
  | .poll _ _, _ => []

/-- What a user does in a step. -/
def Actor.deeds (actor : Actor α) (station : Station τ) : List Deed :=
  (station.news (actor.step station).2).map .entered ++
    (actor.job?.map fun job => job.calls station).getD []

namespace System

/-- What was done between two states, going by the journal and the notes. -/
def deeds (before after : System ι α τ) : List Deed :=
  (before.station.news after.station).map .entered ++
    (after.notes.drop before.notes.length).filterMap Deed.ofNote?

theorem ofNote?_notesOn (station : Station (Logged τ)) (place : ι) (job : Job) :
    (notesOn station place job).filterMap Deed.ofNote? = job.calls station := by
  have hbegan : ∀ begins : Bool, (if begins then
      [Note.began place job.operation station.now] else []).filterMap Deed.ofNote? = [] := by
    intro begins
    cases begins <;> rfl
  have haccessed : ∀ accesses : List Access,
      (accesses.map (Note.accessed place job.operation)).filterMap Deed.ofNote? = [] := by
    intro accesses
    rw [List.filterMap_map]
    exact List.filterMap_eq_nil_iff.mpr fun _ _ => rfl
  simp only [notesOn, List.filterMap_append, hbegan, haccessed, List.nil_append]
  cases job with
  | exchange call stage =>
    simp only [Job.step, Job.calls, Job.operation]
    cases hrun : Exchange.step call stage station with
    | mk progress next => cases progress <;> rfl
  | poll settings stage =>
    simp only [Job.step, Job.calls, Job.operation]
    cases hrun : Sweep.step settings.responseTimeout stage station with
    | mk progress next => cases progress <;> rfl

variable [DecidableEq ι]

theorem deeds_act (system : System ι α τ) (place : ι) :
    system.deeds (system.act place) = (system.actors place).deeds system.station := by
  unfold deeds Actor.deeds
  congr 1
  simp only [act, List.drop_left]
  cases hjob : (system.actors place).job? with
  | none => rfl
  | some job => exact ofNote?_notesOn system.station place job

/-- What the user in a place does in the course of a schedule. -/
def deedsOf (place : ι) : System ι α τ → List (Choice ι α) → List Deed
  | _, [] => []
  | system, choice :: schedule =>
    let next := system.step choice
    let own :=
      match choice with
      | .act actor => if actor = place then system.deeds next else []
      | .talk _ _ | .listen _ _ | .pass _ | .requestStop => []
    own ++ deedsOf place next schedule

theorem deedsOf_append (place : ι) (system : System ι α τ) (schedule later : List (Choice ι α)) :
    system.deedsOf place (schedule ++ later) =
      system.deedsOf place schedule ++ (system.run schedule).deedsOf place later := by
  induction schedule generalizing system with
  | nil => rfl
  | cons choice schedule ih =>
    simp only [List.cons_append, deedsOf, ih, List.append_assoc]
    rfl

end System

end Deeds

end CellModem
