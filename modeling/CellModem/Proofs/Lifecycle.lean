import Mathlib
import CellModem.Bench.Modem
import CellModem.Proofs.Deeds
import CellModem.Proofs.Interleaving

/-!
The life of a listener, from the step that seats it to the step that ends it, whatever transport,
settings and other users do in between. It becomes idle, looks for input as often as it likes, and
stops. If the settings say so it makes one call in front of the first look and one behind the last,
whatever comes of them; it hands over no other request. It ends only because it was asked to, and
withdraws that request.
-/

namespace CellModem

namespace Listener

open RegularExpression in
/-- The states of one look: with something to hand on or without. -/
def look : RegularExpression ListenerState :=
  char .reading * (char .dispatching * char .idle + char .idle)

open RegularExpression in
/-- The states of a listener, from its start to its end. -/
def life : RegularExpression ListenerState :=
  char .idle * star look * char .stopped

/-- The states of looks one after the other. -/
abbrev Looks (states : List ListenerState) : Prop :=
  states ∈ (RegularExpression.star look).matches'

theorem looks_nil : Looks [] := by
  rw [Looks, RegularExpression.matches'_star]
  exact Language.nil_mem_kstar _

theorem Looks.add {states states' : List ListenerState} (h : Looks states)
    (hlook : states' ∈ look.matches') : Looks (states ++ states') := by
  rw [Looks, RegularExpression.matches'_star, Language.mem_kstar] at h ⊢
  obtain ⟨looks, rfl, hlooks⟩ := h
  refine ⟨looks ++ [states'], by simp, fun states hstates => ?_⟩
  rcases List.mem_append.mp hstates with hold | hnew
  · exact hlooks states hold
  · rw [List.mem_singleton.mp hnew]
    exact hlook

theorem look_of_idle : [.reading, .idle] ∈ look.matches' := by
  rw [look, RegularExpression.matches'_mul]
  exact Language.append_mem_mul (Set.mem_singleton _) (Or.inr (Set.mem_singleton _))

theorem look_of_dispatching : [.reading, .dispatching, .idle] ∈ look.matches' := by
  rw [look, RegularExpression.matches'_mul, RegularExpression.matches'_add,
    RegularExpression.matches'_mul]
  exact Language.append_mem_mul (Set.mem_singleton _)
    (Or.inl (Language.append_mem_mul (Set.mem_singleton _) (Set.mem_singleton _)))

/-- Looks with the first and the last state around them are a life. -/
theorem life_of_looks {states : List ListenerState} (h : Looks states) :
    .idle :: (states ++ [.stopped]) ∈ life.matches' := by
  rw [life, RegularExpression.matches'_mul, RegularExpression.matches'_mul]
  exact Language.append_mem_mul (Language.append_mem_mul (Set.mem_singleton _) h)
    (Set.mem_singleton _)

/-- What shows of switching signal reports on or off: one call, with its request if that can be
sent, provided that the settings say so. -/
def switching (settings : Settings) (command : String) : Conduct :=
  if settings.subscribes then
    ⟨[], (call settings command).request?.toList, [call settings command]⟩
  else ⟨[], [], []⟩

/-- The listener has begun, switched on what there is to switch on, and looked so often. -/
def Looked (settings : Settings) (deeds : List Deed) : Prop :=
  ∃ on looks states, deeds = .entered (.listener .idle) :: (on ++ looks) ∧
    conduct on = switching settings switchOn ∧ conduct looks = ⟨states, [], []⟩ ∧ Looks states

/-- The listener is switching signal reports on or off, and has come so far with the call. -/
def Switches (settings : Settings) (command : String) (stage : Exchange.Stage)
    (deeds : List Deed) : Prop :=
  settings.subscribes = true ∧ ∃ requests, conduct deeds = ⟨[], requests, []⟩ ∧
    Exchange.Offered (call settings command) stage requests

/-- What a listener has done when it has come so far. -/
def Did (settings : Settings) : Stage → List Deed → Prop
  | .starting, deeds => deeds = []
  | .switchingOn stage, deeds =>
      ∃ on, deeds = .entered (.listener .idle) :: on ∧ Switches settings switchOn stage on
  | .choosing, deeds | .pausing _, deeds => Looked settings deeds
  | .sweeping _, deeds =>
      ∃ earlier more, deeds = earlier ++ .entered (.listener .reading) :: more ∧
        Looked settings earlier ∧ conduct more = ⟨[], [], []⟩
  | .switchingOff stage, deeds =>
      ∃ earlier off, deeds = earlier ++ off ∧ Looked settings earlier ∧
        Switches settings switchOff stage off
  | .stopping, deeds =>
      ∃ earlier off, deeds = earlier ++ off ∧ Looked settings earlier ∧
        conduct off = switching settings switchOff

/-- What a listener has done in its life. -/
def Lived (settings : Settings) (deeds : List Deed) : Prop :=
  ∃ on looks off states,
    deeds = .entered (.listener .idle) :: (on ++ looks ++ off ++ [.entered (.listener .stopped)]) ∧
      conduct on = switching settings switchOn ∧ conduct looks = ⟨states, [], []⟩ ∧ Looks states ∧
        conduct off = switching settings switchOff

theorem Looked.add {settings : Settings} {earlier more : List Deed} {states : List ListenerState}
    (h : Looked settings earlier) (hmore : conduct more = ⟨states, [], []⟩)
    (hlook : states ∈ look.matches') : Looked settings (earlier ++ more) := by
  obtain ⟨on, looks, before, rfl, hon, hlooks, hbefore⟩ := h
  refine ⟨on, looks ++ more, before ++ states, ?_, hon, ?_, hbefore.add hlook⟩
  · rw [List.cons_append, List.append_assoc]
  · rw [conduct_append, hlooks, hmore]
    rfl

end Listener

namespace Actor

variable {α τ : Type} [Transport τ] {actor : Actor α} {station next : Station τ}

/-- Without a job, what a user does is what it enters. -/
theorem deeds_of_idle (h : actor.job? = none) {events : List Event}
    (hevents : station.Enters events (actor.step station).2) :
    actor.deeds station = events.map .entered := by
  rw [deeds, h, hevents.news_eq]
  exact List.append_nil _

theorem station_of_listener (settings : Settings) (stage : Listener.Stage) (station : Station τ) :
    ((listener settings stage : Actor α).step station).2 =
      (Listener.step settings stage station).2 := by
  simp only [step]
  cases Listener.step settings stage station with
  | mk progress next => cases progress <;> rfl

/-- A step of an exchange enters no state of the listener. -/
theorem conduct_of_exchange {call : Call} {stage : Exchange.Stage}
    (h : actor.job? = some (.exchange call stage)) (station : Station τ) :
    conduct (actor.deeds station) =
      ⟨[], stage.offers, (Exchange.step call stage station).1.result?.toList.map fun _ => call⟩ := by
  have hstation : (actor.step station).2 = (Exchange.step call stage station).2 := by
    rw [(step_of_job h station).1, Job.step]
    cases hrun : Exchange.step call stage station with
    | mk progress next => cases progress <;> rfl
  obtain ⟨⟨events, hevents, hstates⟩, -⟩ :=
    Exchange.step_relates Station.active_works call stage station
  have hcalls : ∀ result : Option Exchange.Result, conduct (result.toList.map (.called call)) =
      ⟨[], [], result.toList.map fun _ => call⟩ := by
    intro result
    cases result <;> rfl
  rw [deeds, h, hstation, conduct_append,
    conduct_of_enters hevents (Exchange.requests_step call stage station), hstates]
  simp only [Option.map_some, Option.getD_some, Job.calls, hcalls, List.append_nil, List.nil_append]

end Actor

namespace Listener

variable {τ : Type}

/-- To act on what a look has brought is to become idle, at once or after handing it on. -/
theorem enters_swept (settings : Settings) (result : Sweep.Result) (station : Station τ) :
    ∃ events, station.Enters events (swept settings result station).2 ∧
      (events.filterMap Event.state? = [.idle] ∨
        events.filterMap Event.state? = [.dispatching, .idle]) := by
  rcases swept_cases settings result station with hpause | ⟨buffer, -, hdispatch⟩
  · rw [hpause]
    exact ⟨[.listener .idle], rfl, Or.inl rfl⟩
  · let signals := (Dispatch.ofBuffer buffer).signals
    have hdispatching : station.Enters [.listener .dispatching]
      (station.setListener .dispatching) := rfl
    have hpublished : (station.setListener .dispatching).Enters
        (signals.map (Event.published .sweep)) (dispatch buffer station) := by
      simp only [dispatch, Station.publishAll_eq]
      rfl
    have hidle : (dispatch buffer station).Enters [.listener .idle]
      ((dispatch buffer station).setListener .idle) := rfl
    have hsignals : (signals.map (Event.published .sweep)).filterMap Event.state? = [] := by
      rw [List.filterMap_map]
      exact List.filterMap_eq_nil_iff.mpr fun _ _ => rfl
    rw [hdispatch]
    refine ⟨_, (hdispatching.append hpublished).append hidle, Or.inr ?_⟩
    rw [List.filterMap_append, List.filterMap_append, hsignals]
    rfl

/-- It leaves a request to stop alone. -/
theorem swept_stop (settings : Settings) (result : Sweep.Result) (station : Station τ) :
    (swept settings result station).2.stopRequested = station.stopRequested := by
  rcases swept_cases settings result station with hpause | ⟨buffer, -, hdispatch⟩
  · rw [hpause]
    rfl
  · rw [hdispatch]
    simp only [dispatch, Station.publishAll_eq]
    rfl

/-- The next stage is to look again, or to pause. -/
theorem stage_swept (settings : Settings) (result : Sweep.Result) (station : Station τ) :
    (swept settings result station).1 = .choosing ∨
      ∃ timer, (swept settings result station).1 = .pausing timer := by
  rcases swept_cases settings result station with hpause | ⟨buffer, -, hdispatch⟩
  · rw [hpause]
    exact Or.inr ⟨_, rfl⟩
  · rw [hdispatch]
    exact Or.inl rfl

variable [Transport τ]

/-- What is said of a listener after a step, given what it had done before. -/
abbrev Lives (settings : Settings) (deeds : List Deed)
    (outcome : Progress Stage Unit × Station τ) : Prop :=
  Course.Meets (fun next _ => Did settings next deeds)
    (fun _ final => Lived settings deeds ∧ final.listener = .stopped ∧ final.stopRequested = false)
    outcome

variable {α : Type} {settings : Settings} {deeds : List Deed}

/-- A step of a call to switch signal reports on or off. The call counts when it has come to its end,
whatever that is like. -/
theorem step_switches {command : String} {stage : Exchange.Stage} {later : List Deed}
    (h : Switches settings command stage deeds) (station : Station τ)
    (hlater : conduct later = ⟨[], stage.offers,
      (Exchange.step (call settings command) stage station).1.result?.toList.map fun _ =>
        call settings command⟩) :
    Course.Meets (fun next _ => Switches settings command next (deeds ++ later))
      (fun _ _ => conduct (deeds ++ later) = switching settings command)
      (Exchange.step (call settings command) stage station) := by
  obtain ⟨hsubscribes, requests, hdeeds, hoffered⟩ := h
  have hnext := Exchange.step_offered hoffered station
  have hconduct : conduct (deeds ++ later) = ⟨[], requests ++ stage.offers,
      (Exchange.step (call settings command) stage station).1.result?.toList.map fun _ =>
        call settings command⟩ := by
    rw [conduct_append, hdeeds, hlater]
    rfl
  cases hrun : Exchange.step (call settings command) stage station with
  | mk progress after =>
    rw [hrun] at hnext hconduct
    cases progress with
    | moved next => exact ⟨hsubscribes, _, hconduct, hnext⟩
    | waiting next => exact ⟨hsubscribes, _, hconduct, hnext⟩
    | finished result =>
      have hrequests : requests ++ stage.offers = (call settings command).request?.toList := hnext
      rw [hrequests] at hconduct
      refine hconduct.trans ?_
      rw [switching, if_pos hsubscribes]
      rfl

theorem lives_starting (station : Station τ) :
    Lives settings (Actor.deeds (.listener settings .starting : Actor α) station)
      (step settings .starting station) := by
  have henters : station.Enters [.listener .idle]
    (Actor.step (.listener settings .starting : Actor α) station).2 := rfl
  rw [Actor.deeds_of_idle rfl henters]
  cases hsubscribes : settings.subscribes with
  | true =>
    simp only [step, hsubscribes, if_true]
    exact ⟨[], rfl, hsubscribes, [], rfl, rfl⟩
  | false =>
    simp only [step, hsubscribes, Bool.false_eq_true, if_false]
    refine ⟨[], [], [], rfl, ?_, rfl, looks_nil⟩
    simp only [switching, hsubscribes, Bool.false_eq_true, if_false]
    rfl

theorem lives_switchingOn {stage : Exchange.Stage} (h : Did settings (.switchingOn stage) deeds)
    (station : Station τ) :
    Lives settings
      (deeds ++ Actor.deeds (.listener settings (.switchingOn stage) : Actor α) station)
      (step settings (.switchingOn stage) station) := by
  obtain ⟨on, rfl, hswitches⟩ := h
  have hjob : (.listener settings (.switchingOn stage) : Actor α).job? =
      some (.exchange (call settings switchOn) stage) := rfl
  have hnext := step_switches hswitches station (Actor.conduct_of_exchange hjob station)
  simp only [step]
  cases hrun : Exchange.step (call settings switchOn) stage station with
  | mk progress after =>
    rw [hrun] at hnext
    cases progress with
    | moved next => exact ⟨_, rfl, hnext⟩
    | waiting next => exact ⟨_, rfl, hnext⟩
    | finished result => exact ⟨_, [], [], by rw [List.append_nil]; rfl, hnext, rfl, looks_nil⟩

theorem lives_switchingOff {stage : Exchange.Stage} (h : Did settings (.switchingOff stage) deeds)
    (station : Station τ) :
    Lives settings
      (deeds ++ Actor.deeds (.listener settings (.switchingOff stage) : Actor α) station)
      (step settings (.switchingOff stage) station) := by
  obtain ⟨earlier, off, rfl, hlooked, hswitches⟩ := h
  have hjob : (.listener settings (.switchingOff stage) : Actor α).job? =
      some (.exchange (call settings switchOff) stage) := rfl
  have hnext := step_switches hswitches station (Actor.conduct_of_exchange hjob station)
  simp only [step]
  cases hrun : Exchange.step (call settings switchOff) stage station with
  | mk progress after =>
    rw [hrun] at hnext
    cases progress with
    | moved next => exact ⟨earlier, _, List.append_assoc _ _ _, hlooked, hnext⟩
    | waiting next => exact ⟨earlier, _, List.append_assoc _ _ _, hlooked, hnext⟩
    | finished result => exact ⟨earlier, _, List.append_assoc _ _ _, hlooked, hnext⟩

/-- A listener that is asked to stop has done its looks, and another one begins one. -/
theorem lives_choosing (h : Looked settings deeds) (station : Station τ) :
    Lives settings (deeds ++ Actor.deeds (.listener settings .choosing : Actor α) station)
      (step settings .choosing station) := by
  cases hstop : station.stopRequested with
  | true =>
    have henters : station.Enters []
        (Actor.step (.listener settings .choosing : Actor α) station).2 := by
      simp only [Actor.step, step, hstop, if_true]
      rfl
    rw [Actor.deeds_of_idle rfl henters]
    simp only [step, hstop, if_true]
    cases hsubscribes : settings.subscribes with
    | true =>
      exact ⟨deeds, [], rfl, h, hsubscribes, [], rfl, rfl⟩
    | false =>
      refine ⟨deeds, [], rfl, h, ?_⟩
      simp only [switching, hsubscribes, Bool.false_eq_true, if_false]
      rfl
  | false =>
    have henters : station.Enters [.listener .reading]
        (Actor.step (.listener settings .choosing : Actor α) station).2 := by
      simp only [Actor.step, step, hstop, Bool.false_eq_true, if_false]
      rfl
    rw [Actor.deeds_of_idle rfl henters]
    simp only [step, hstop, Bool.false_eq_true, if_false]
    exact ⟨deeds, [], rfl, h, rfl⟩

theorem lives_pausing {timer : Timer} (h : Looked settings deeds) (station : Station τ) :
    Lives settings (deeds ++ Actor.deeds (.listener settings (.pausing timer) : Actor α) station)
      (step settings (.pausing timer) station) := by
  have hnext : Course.Meets (fun next after => Did settings next deeds ∧ after = station)
      (fun _ _ => False) (step settings (.pausing timer) station) := by
    unfold step
    by_cases hstop : station.stopRequested
    · simp only [hstop, if_true]
      exact ⟨h, rfl⟩
    · simp only [hstop]
      cases hask : timer.ask station.now <;> exact ⟨h, rfl⟩
  have hsame := hnext.station (fun _ _ hdid => hdid.2) fun _ _ hno => hno.elim
  have henters : station.Enters []
      (Actor.step (.listener settings (.pausing timer) : Actor α) station).2 := by
    rw [Actor.station_of_listener]
    exact congrArg Station.journal hsame
  rw [Actor.deeds_of_idle rfl henters, List.map_nil, List.append_nil]
  exact hnext.imp (fun _ _ hdid => hdid.1) fun _ _ hno => hno.elim

/-- A look comes to a round of states when it ends, and shows nothing before. -/
theorem lives_sweeping {stage : Sweep.Stage} (h : Did settings (.sweeping stage) deeds)
    (station : Station τ) :
    Lives settings (deeds ++ Actor.deeds (.listener settings (.sweeping stage) : Actor α) station)
      (step settings (.sweeping stage) station) := by
  obtain ⟨earlier, more, rfl, hlooked, hmore⟩ := h
  have hjob : (.listener settings (.sweeping stage) : Actor α).job? =
      some (.poll settings stage) := rfl
  have hdeeds : Actor.deeds (.listener settings (.sweeping stage) : Actor α) station =
      (station.news (Job.step (.poll settings stage) station).2).map .entered := by
    rw [Actor.deeds, (Actor.step_of_job hjob station).1]
    exact List.append_nil _
  obtain ⟨⟨events, hevents, hstates⟩, -⟩ :=
    Sweep.step_relates Station.active_works.toPassive settings.responseTimeout stage station
  have hrequests :=
    Sweep.step_relates Station.passive_requests settings.responseTimeout stage station
  rw [hdeeds]
  simp only [step, Job.step]
  cases hrun : Sweep.step settings.responseTimeout stage station with
  | mk progress after =>
    rw [hrun] at hevents hrequests
    have hquiet := conduct_of_enters hevents (hrequests.trans (List.append_nil _).symm)
    rw [hstates] at hquiet
    have hstill : conduct (more ++ (station.news after).map .entered) = ⟨[], [], []⟩ := by
      rw [conduct_append, hmore, hquiet]
      rfl
    cases progress with
    | moved next => exact ⟨earlier, _, List.append_assoc _ _ _, hlooked, hstill⟩
    | waiting next => exact ⟨earlier, _, List.append_assoc _ _ _, hlooked, hstill⟩
    | finished result =>
      obtain ⟨added, hadded, hround⟩ := enters_swept settings result after
      have hall := hevents.append hadded
      have hnone : (swept settings result after).2.requests = station.requests ++ [] := by
        rw [(swept_keeps settings result after).2.2.2, hrequests, List.append_nil]
      have hconduct := conduct_of_enters hall hnone
      rw [List.filterMap_append, hstates, List.nil_append] at hconduct
      have hstates' : .reading :: added.filterMap Event.state? ∈ look.matches' := by
        rcases hround with hidle | hdispatching
        · rw [hidle]
          exact look_of_idle
        · rw [hdispatching]
          exact look_of_dispatching
      have hwhole : conduct (.entered (.listener .reading) ::
          (more ++ (station.news (swept settings result after).2).map .entered)) =
            ⟨.reading :: added.filterMap Event.state?, [], []⟩ := by
        rw [conduct_cons_state, conduct_append, hmore, hconduct]
        rfl
      have hmore := hlooked.add hwhole hstates'
      rw [List.append_assoc, List.cons_append]
      change Did settings (swept settings result after).1 _
      rcases stage_swept settings result after with hchoosing | ⟨timer, hpausing⟩
      · rw [hchoosing]
        exact hmore
      · rw [hpausing]
        exact hmore

/-- The last step withdraws the request to stop. -/
theorem lives_stopping (h : Did settings .stopping deeds) (station : Station τ) :
    Lives settings (deeds ++ Actor.deeds (.listener settings .stopping : Actor α) station)
      (step settings .stopping station) := by
  obtain ⟨earlier, off, rfl, ⟨on, looks, states, rfl, hon, hlooks, hstates⟩, hoff⟩ := h
  have henters : station.Enters [.listener .stopped]
    (Actor.step (.listener settings .stopping : Actor α) station).2 := rfl
  rw [Actor.deeds_of_idle rfl henters]
  exact ⟨⟨on, looks, off, states, by simp, hon, hlooks, hstates, hoff⟩, rfl, rfl⟩

/-- One step in the life of a listener. -/
theorem step_lives {stage : Stage} (h : Did settings stage deeds) (station : Station τ) :
    Lives settings (deeds ++ Actor.deeds (.listener settings stage : Actor α) station)
      (step settings stage station) := by
  cases stage with
  | starting =>
    obtain rfl : deeds = [] := h
    exact lives_starting station
  | switchingOn stage => exact lives_switchingOn h station
  | choosing => exact lives_choosing h station
  | sweeping stage => exact lives_sweeping h station
  | pausing timer => exact lives_pausing h station
  | switchingOff stage => exact lives_switchingOff h station
  | stopping => exact lives_stopping h station

/-- Behind its last look. -/
def Stage.isClosing : Stage → Bool
  | .switchingOff _ | .stopping => true
  | .starting | .switchingOn _ | .choosing | .sweeping _ | .pausing _ => false

/-- A listener closes when it looks for a request to stop and finds one, and at no other time. -/
theorem step_closing (settings : Settings) (stage : Stage) (station : Station τ) :
    Course.Meets
      (fun next _ => next.isClosing = true →
        stage.isClosing = true ∨ stage = .choosing ∧ station.stopRequested = true)
      (fun _ _ => stage = .stopping) (step settings stage station) := by
  cases stage with
  | starting =>
    intro hclosing
    cases hsubscribes : settings.subscribes <;>
      simp [hsubscribes, Stage.isClosing] at hclosing
  | switchingOn stage =>
    simp only [step]
    cases Exchange.step (call settings switchOn) stage station with
    | mk progress after =>
      cases progress <;> (intro hclosing; cases hclosing)
  | choosing =>
    cases hstop : station.stopRequested with
    | true =>
      simp only [step, hstop, if_true]
      exact fun _ => Or.inr ⟨trivial, trivial⟩
    | false =>
      simp only [step, hstop, Bool.false_eq_true, if_false]
      intro hclosing
      cases hclosing
  | sweeping stage =>
    simp only [step]
    cases Sweep.step settings.responseTimeout stage station with
    | mk progress after =>
      cases progress with
      | moved next =>
        intro hclosing
        cases hclosing
      | waiting next =>
        intro hclosing
        cases hclosing
      | finished result =>
        change (swept settings result after).1.isClosing = true → _
        rcases stage_swept settings result after with hstage | ⟨timer, hstage⟩ <;>
          (rw [hstage]; intro hclosing; cases hclosing)
  | pausing timer =>
    unfold step
    by_cases hstop : station.stopRequested
    · simp only [hstop, if_true]
      intro hclosing
      cases hclosing
    · simp only [hstop]
      cases timer.ask station.now <;> (intro hclosing; cases hclosing)
  | switchingOff stage =>
    simp only [step]
    cases Exchange.step (call settings switchOff) stage station with
    | mk progress after => cases progress <;> exact fun _ => Or.inl rfl
  | stopping => exact rfl

end Listener

section Stop

variable {α τ : Type} [Transport τ]

/-- No job withdraws a request to stop. -/
theorem Job.stop_step (job : Job) (station : Station τ) :
    (job.step station).2.stopRequested = station.stopRequested := by
  let same : Station τ → Prop := fun next => next.stopRequested = station.stopRequested
  have hmeets : Course.Meets (fun _ => same) (fun _ => same) (job.step station) := by
    cases job with
    | exchange call stage =>
      apply meets_of_exchange
      apply Course.meets_of_station same
      exact (Exchange.step_relates Station.active_works call stage station).2
    | poll settings stage =>
      apply meets_of_poll
      have hstep := Course.meets_of_station same
        (Sweep.step_relates Station.active_works.toPassive settings.responseTimeout stage station).2
      apply hstep.imp (fun _ _ hsame => hsame)
      exact fun result next hsame => (Listener.swept_stop settings result next).trans hsame
  exact hmeets.station (fun _ _ hsame => hsame) fun _ _ hsame => hsame

/-- A listener is about to come to its end. -/
def Actor.isEnding : Actor α → Bool
  | .listener _ .stopping => true
  | .absent | .talk _ | .listener _ _ => false

omit [Transport τ] in
theorem Actor.isEnding_of_job? {actor : Actor α} {job : Job} (h : actor.job? = some job) :
    actor.isEnding = false := by
  match actor with
  | .absent | .talk _ => rfl
  | .listener settings stage =>
    cases stage with
    | stopping => cases h
    | starting | switchingOn stage | choosing | sweeping stage
    | pausing timer | switchingOff stage => rfl

/-- No step makes a request to stop, and the last step of a listener withdraws it. -/
theorem Actor.stop_step {actor : Actor α} {station : Station τ}
    (h : (actor.step station).2.stopRequested = true) :
    station.stopRequested = true ∧ actor.isEnding = false := by
  cases hjob : actor.job? with
  | some job =>
    rw [(step_of_job hjob station).1, Job.stop_step] at h
    exact ⟨h, isEnding_of_job? hjob⟩
  | none =>
    match actor with
    | .absent => exact ⟨h, rfl⟩
    | .talk ⟨.done value, stage⟩ => exact ⟨h, rfl⟩
    | .talk ⟨.ask call next, stage⟩ => cases hjob
    | .listener settings .starting => exact ⟨h, rfl⟩
    | .listener settings (.switchingOn stage) => cases hjob
    | .listener settings .choosing =>
      refine ⟨?_, rfl⟩
      rw [station_of_listener, Listener.step] at h
      split at h <;> exact h
    | .listener settings (.sweeping stage) => cases hjob
    | .listener settings (.pausing timer) =>
      refine ⟨?_, rfl⟩
      rw [station_of_listener, Listener.step] at h
      split at h
      case isTrue hstop => exact hstop
      case isFalse => split at h <;> exact h
    | .listener settings (.switchingOff stage) => cases hjob
    | .listener settings .stopping => cases h

end Stop

namespace System

variable {ι α τ : Type} [DecidableEq ι] [Transport τ]

/-- A listener comes to its end, and withdraws the request to stop. -/
def ends (system : System ι α τ) : Choice ι α → Bool
  | .act place => (system.actors place).isEnding
  | .talk _ _ | .listen _ _ | .pass _ | .requestStop => false

/-- No listener comes to its end along a schedule. -/
def goesOn : System ι α τ → List (Choice ι α) → Bool
  | _, [] => true
  | system, choice :: schedule => !system.ends choice && goesOn (system.step choice) schedule

theorem stop_step {system : System ι α τ} {choice : Choice ι α}
    (h : (system.step choice).station.stopRequested = true) :
    choice = .requestStop ∨
      system.station.stopRequested = true ∧ system.ends choice = false := by
  have hseat : ∀ place actor, (system.seat place actor).station = system.station := by
    intro place actor
    unfold seat
    split <;> rfl
  cases choice with
  | talk place program =>
    rw [step, hseat] at h
    exact Or.inr ⟨h, rfl⟩
  | listen place settings =>
    rw [step, hseat] at h
    exact Or.inr ⟨h, rfl⟩
  | act place => exact Or.inr (Actor.stop_step h)
  | pass moment => exact Or.inr ⟨h, rfl⟩
  | requestStop => exact Or.inl rfl

/-- A request to stop is made along a schedule, and no listener comes to its end behind it. -/
def Requested (system : System ι α τ) (schedule : List (Choice ι α)) : Prop :=
  ∃ front back, schedule = front ++ .requestStop :: back ∧
    ((system.run front).step .requestStop).goesOn back = true

/-- A request to stop that stands was made, and no listener has come to its end since. -/
theorem stop_run {system : System ι α τ} {schedule : List (Choice ι α)}
    (h : (system.run schedule).station.stopRequested = true) :
    (system.station.stopRequested = true ∧ system.goesOn schedule = true) ∨
      system.Requested schedule := by
  induction schedule generalizing system with
  | nil => exact Or.inl ⟨h, rfl⟩
  | cons choice schedule ih =>
    rcases ih h with ⟨hstop, hgoes⟩ | ⟨front, back, rfl, hgoes⟩
    · rcases stop_step hstop with rfl | ⟨hbefore, hends⟩
      · exact Or.inr ⟨[], schedule, rfl, hgoes⟩
      · exact Or.inl ⟨hbefore, by rw [goesOn, hends, hgoes]; rfl⟩
    · exact Or.inr ⟨choice :: front, back, rfl, hgoes⟩

/-- The place is taken all along a schedule. -/
def keeps (place : ι) : System ι α τ → List (Choice ι α) → Bool
  | system, [] => !(system.actors place).isFree
  | system, choice :: schedule =>
    !(system.actors place).isFree && keeps place (system.step choice) schedule

/-- Only its own steps change who is in a place that is taken. -/
theorem step_of_other {place : ι} {system : System ι α τ} {choice : Choice ι α}
    (htaken : (system.actors place).isFree = false) (hother : choice ≠ .act place) :
    (system.step choice).actors place = system.actors place ∧
      system.deedsOf place [choice] = [] := by
  have hseat : ∀ other actor, (system.seat other actor).actors place = system.actors place := by
    intro other actor
    unfold seat
    split
    case isTrue hfree =>
      apply actors_put_ne
      rintro rfl
      exact Bool.false_ne_true (htaken.symm.trans hfree)
    case isFalse => rfl
  cases choice with
  | talk other program => exact ⟨hseat other _, rfl⟩
  | listen other settings => exact ⟨hseat other _, rfl⟩
  | act other =>
    have hne : other ≠ place := fun heq => hother (by rw [heq])
    refine ⟨actors_act_ne system hne.symm, ?_⟩
    simp only [deedsOf, hne, if_false, List.append_nil]
  | pass moment => exact ⟨rfl, rfl⟩
  | requestStop => exact ⟨rfl, rfl⟩

theorem deedsOf_act (system : System ι α τ) (place : ι) :
    system.deedsOf place [.act place] = (system.actors place).deeds system.station := by
  simp only [deedsOf, if_true, List.append_nil]
  exact deeds_act system place

theorem isFree_of_keeps {place : ι} {system : System ι α τ} {schedule : List (Choice ι α)}
    (h : system.keeps place schedule = true) : (system.actors place).isFree = false := by
  cases schedule with
  | nil => simpa [keeps] using h
  | cons choice schedule =>
    rw [keeps, Bool.and_eq_true] at h
    simpa using h.1

/-- A listener that looks for a request to stop and finds one leaves its loop. -/
theorem step_of_choosing {place : ι} {settings : Settings} {system : System ι α τ}
    (hactor : system.actors place = .listener settings .choosing)
    (hstop : system.station.stopRequested = true) :
    ∃ next, (system.step (.act place)).actors place = .listener settings next ∧
      next.isClosing = true := by
  refine ⟨if settings.subscribes then .switchingOff .queued else .stopping, ?_, ?_⟩
  · rw [step, actors_act_self, hactor, Actor.step]
    simp only [Listener.step, hstop, if_true]
  · cases settings.subscribes <;> rfl

section Listener

variable {settings : Settings} {place : ι} {system : System ι α τ} {stage : Listener.Stage}
  {deeds : List Deed} (hactor : system.actors place = .listener settings stage)
  (hdid : Listener.Did settings stage deeds)

include hactor hdid

/-- After a step of anyone, a listener has gone on, or this was the last of its own. -/
theorem step_lives (choice : Choice ι α) :
    (∃ later, (system.step choice).actors place = .listener settings later ∧
      Listener.Did settings later (deeds ++ system.deedsOf place [choice]) ∧
      (later.isClosing = true → stage.isClosing = true ∨
        choice = .act place ∧ stage = .choosing ∧ system.station.stopRequested = true)) ∨
    (system.step choice).actors place = .absent ∧ stage = .stopping ∧
      Listener.Lived settings (deeds ++ system.deedsOf place [choice]) ∧
      (system.step choice).station.listener = .stopped ∧
      (system.step choice).station.stopRequested = false := by
  by_cases hown : choice = .act place
  · subst hown
    have hlives : Listener.Lives settings _ _ := Listener.step_lives (α := α) hdid system.station
    have hclosing := Listener.step_closing settings stage system.station
    have hstation : (system.step (.act place)).station =
        ((system.actors place).step system.station).2 := rfl
    rw [deedsOf_act, hactor, hstation, hactor, Actor.station_of_listener, step, actors_act_self,
      hactor, Actor.step]
    cases hrun : Listener.step settings stage system.station with
    | mk progress after =>
      rw [hrun] at hlives hclosing
      cases progress with
      | moved next | waiting next =>
        exact Or.inl ⟨next, rfl, hlives, fun hclose => (hclosing hclose).imp_right (.intro rfl)⟩
      | finished result => exact Or.inr ⟨rfl, hclosing, hlives⟩
  · have hthere : (system.actors place).isFree = false := by rw [hactor]; rfl
    obtain ⟨hsame, hnone⟩ := step_of_other hthere hown
    refine Or.inl ⟨stage, hsame.trans hactor, ?_, Or.inl⟩
    rw [hnone, List.append_nil]
    exact hdid

/-- What is said of a listener holds as long as it is there. If it has come to close meanwhile, then
by a step of its own with which it found a request to stop. -/
theorem run_lives {schedule : List (Choice ι α)} (hkeeps : system.keeps place schedule = true) :
    ∃ later, (system.run schedule).actors place = .listener settings later ∧
      Listener.Did settings later (deeds ++ system.deedsOf place schedule) ∧
      (later.isClosing = true → stage.isClosing = true ∨
        ∃ waiting closing, schedule = waiting ++ .act place :: closing ∧
          (system.run waiting).actors place = .listener settings .choosing ∧
          (system.run waiting).station.stopRequested = true) := by
  induction schedule generalizing system stage deeds with
  | nil => exact ⟨stage, hactor, by rwa [deedsOf, List.append_nil], Or.inl⟩
  | cons choice schedule ih =>
    rw [keeps, Bool.and_eq_true] at hkeeps
    obtain ⟨-, hkeeps⟩ := hkeeps
    have hthere := isFree_of_keeps hkeeps
    rcases step_lives hactor hdid choice with ⟨next, hnext, hdid', hclosing⟩ | ⟨hgone, -⟩
    case inr =>
      rw [hgone] at hthere
      cases hthere
    obtain ⟨later, hlater, hdone, hclosing'⟩ := ih hnext hdid' hkeeps
    refine ⟨later, hlater, ?_, fun hclose => ?_⟩
    · have happend : system.deedsOf place (choice :: schedule) = _ :=
        deedsOf_append place system [choice] schedule
      rw [happend, ← List.append_assoc]
      exact hdone
    · rcases hclosing' hclose with hclose | ⟨waiting, closing, rfl, hchoosing, hstop⟩
      · rcases hclosing hclose with hclose | ⟨rfl, rfl, hstop⟩
        · exact Or.inl hclose
        · exact Or.inr ⟨[], schedule, rfl, hactor, hstop⟩
      · exact Or.inr ⟨choice :: waiting, closing, rfl, hchoosing, hstop⟩

end Listener

end System

namespace Listener

/-- A call to switch signal reports is too long only with a terminator that is. -/
theorem request?_call (settings : Settings) {command : String}
    (hlength : (Octets.ofText command).length = 9) :
    (call settings command).request? =
      if (Octets.ofText settings.terminator).length ≤ 55 then
        some (Octets.ofText command ++ Octets.ofText settings.terminator)
      else none := by
  have hfits : (Octets.ofText command ++ Octets.ofText settings.terminator).length ≤
      Limits.request ↔ (Octets.ofText settings.terminator).length ≤ 55 := by
    rw [List.length_append, hlength, Limits.request]
    omega
  simp only [Call.request?, call, hfits]

/-- What shows of the life of a listener. -/
theorem Lived.conduct_eq {settings : Settings} {deeds : List Deed} (h : Lived settings deeds) :
    ∃ states ∈ life.matches', conduct deeds =
      if settings.subscribes then
        ⟨states,
          if (Octets.ofText settings.terminator).length ≤ 55 then
            [Octets.ofText switchOn ++ Octets.ofText settings.terminator,
              Octets.ofText switchOff ++ Octets.ofText settings.terminator]
          else [],
          [call settings switchOn, call settings switchOff]⟩
      else ⟨states, [], []⟩ := by
  obtain ⟨on, looks, off, states, rfl, hon, hlooks, hstates, hoff⟩ := h
  refine ⟨_, life_of_looks hstates, ?_⟩
  have hstopped : conduct [.entered (.listener .stopped)] = ⟨[.stopped], [], []⟩ := rfl
  rw [conduct_cons_state, conduct_append, conduct_append, conduct_append, hon, hlooks, hoff,
    hstopped]
  cases hsubscribes : settings.subscribes with
  | true =>
    have hreqOn := @request?_call settings switchOn rfl
    have hreqOff := @request?_call settings switchOff rfl
    simp only [switching, hsubscribes, if_true, hreqOn, hreqOff]
    split <;> simp
  | false => simp [switching, hsubscribes]

end Listener

namespace System

variable {ι α τ : Type} [DecidableEq ι] [Transport τ]

/-- The life of a listener: seated in a free place after whatever has happened before, it is there
while others do what they like, and gone after its last step. Then it has gone through the states of
a life, with one call in front of its looks and one behind them if the settings say so, and with the
requests of these calls alone, whatever became of the first. Both calls fail at once, as any other
would, with a terminator that leaves no room for the command. It ends as stopped, with no request to
stop left. It left its loop with a step at which a request stood that had been made after the last
listener before it came to its end. -/
theorem listener_lives (transport : τ) (board : Bulletin Signal) (before : List (Choice ι α))
    (place : ι) (settings : Settings) (during : List (Choice ι α)) (last : Choice ι α) :
    let start : System ι α τ := start transport board
    let seated := start.run (before ++ [.listen place settings])
    let final := seated.run (during ++ [last])
    let deeds := seated.deedsOf place (during ++ [last])
    ((start.run before).actors place).isFree = true → seated.keeps place during = true →
      (final.actors place).isFree = true →
      Listener.Lived settings deeds ∧
        (∃ states ∈ Listener.life.matches', conduct deeds =
          if settings.subscribes then
            ⟨states,
              if (Octets.ofText settings.terminator).length ≤ 55 then
                [Octets.ofText Listener.switchOn ++ Octets.ofText settings.terminator,
                  Octets.ofText Listener.switchOff ++ Octets.ofText settings.terminator]
              else [],
              [Listener.call settings Listener.switchOn,
                Listener.call settings Listener.switchOff]⟩
          else ⟨states, [], []⟩) ∧
        final.station.listener = .stopped ∧ final.station.stopRequested = false ∧
        ∃ waiting closing next, during = waiting ++ .act place :: closing ∧
          (seated.run waiting).actors place = .listener settings .choosing ∧
          (seated.run (waiting ++ [.act place])).actors place = .listener settings next ∧
          next.isClosing = true ∧ start.Requested (before ++ .listen place settings :: waiting) := by
  intro start seated final deeds hfree hkeeps hgone
  have hseated : seated = (start.run before).step (.listen place settings) := run_concat ..
  have hactor : seated.actors place = .listener settings .starting := by
    rw [hseated, step, seat, if_pos hfree, actors_put_self]
  obtain ⟨stage, hstage, hdid, hclosing⟩ := run_lives hactor rfl hkeeps
  have hfinal : final = (seated.run during).step last := run_concat ..
  rw [hfinal] at hgone
  rcases step_lives hstage hdid last with
    ⟨next, hnext, -⟩ | ⟨-, rfl, hlived, hstopped, hwithdrawn⟩
  case inl =>
    rw [hnext] at hgone
    cases hgone
  rw [List.nil_append, ← deedsOf_append] at hlived
  rw [← hfinal] at hstopped hwithdrawn
  refine ⟨hlived, hlived.conduct_eq, hstopped, hwithdrawn, ?_⟩
  -- it closed at a moment at which a request stood
  rcases hclosing rfl with hnever | ⟨waiting, closing, rfl, hchoosing, hstop⟩
  · cases hnever
  · obtain ⟨next, hnext, hclose⟩ := step_of_choosing hchoosing hstop
    have hsplit : start.run (before ++ .listen place settings :: waiting) = seated.run waiting := by
      rw [run_append, hseated]
      rfl
    rw [← hsplit] at hstop
    refine ⟨waiting, closing, next, rfl, hchoosing, ?_, hclose, ?_⟩
    · rw [run_concat]
      exact hnext
    · rcases stop_run hstop with ⟨hnone, -⟩ | hrequested
      · cases hnone
      · exact hrequested

/-- A modem that accepts the subscription, and sends a report right behind the final result. -/
def reportingModem : Bench.Modem where
  rules :=
    [{ request := Octets.ofText Listener.switchOn
       replies :=
         [[{ content := .data (Octets.ofText "OK\r\n") },
           { content := .data (Octets.ofText "%CESQ: 64,3\r\n") }]] }]

/-- A listener is seated. -/
def listeningSystem : System Unit Unit Bench.Modem :=
  (start reportingModem {}).run [.listen () {}]

/-- It switches on, looks twice, is asked to stop in the pause, and switches off in vain. -/
def listening : List (Choice Unit Unit) :=
  .replicate 11 (.act ()) ++ .requestStop :: .replicate 6 (.act ())

set_option maxRecDepth 8000 in
theorem listener_lives_from_subscription_to_stop :
    Listener.Lived {} (listeningSystem.deedsOf () (listening ++ [.act ()])) ∧
      conduct (listeningSystem.deedsOf () (listening ++ [.act ()])) =
        ⟨[.idle, .reading, .dispatching, .idle, .reading, .idle, .stopped],
          [Octets.ofText "AT%CESQ=1\r\n", Octets.ofText "AT%CESQ=0\r\n"],
          [Listener.call {} "AT%CESQ=1", Listener.call {} "AT%CESQ=0"]⟩ := by
  have hkeeps : listeningSystem.keeps () listening = true := by cbv
  have hgone :
      ((listeningSystem.run (listening ++ [.act ()])).actors ()).isFree = true := by cbv
  refine ⟨(listener_lives reportingModem {} [] () {} listening (.act ()) rfl hkeeps hgone).1, ?_⟩
  cbv

end System

end CellModem
