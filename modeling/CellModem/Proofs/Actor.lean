import CellModem.Proofs.Lock
import CellModem.Proofs.Log

/-!
What a user of the station does in a step: at most a step of the job in hand, and else nothing that
another user could tell by what the lock protects. A user who holds nothing at most waits for the
lock.
-/

namespace CellModem

namespace Job

theorem operation_start (operation : Operation) : operation.start.operation = operation := by
  cases operation <;> rfl

theorem start_operation {job : Job} (h : job.isQueued = true) : job.operation.start = job := by
  cases job with
  | exchange call stage =>
    cases stage <;> first | rfl | cases h
  | poll settings stage =>
    cases stage <;> first | rfl | cases h

theorem isQueued_exchange {call : Call} {stage : Exchange.Stage} :
    (exchange call stage).isQueued = false ↔ stage ≠ .queued := by
  cases stage <;> simp [isQueued]

theorem isQueued_poll {settings : Settings} {stage : Sweep.Stage} :
    (poll settings stage).isQueued = false ↔ stage ≠ .queued := by
  cases stage <;> simp [isQueued]

variable {τ : Type} [Transport τ] {job : Job} {station : Station τ}

/-- A job that may not go for the lock ends at once, and leaves everything as it was. -/
theorem step_unsendable (hqueued : job.isQueued = true)
    (hsendable : job.operation.isSendable = false) :
    job.step station = (.finished (.exchanged (.error .invalidArgument)), station) := by
  rw [← start_operation hqueued]
  cases hoperation : job.operation with
  | exchange call =>
    rw [hoperation] at hsendable
    have hrequest : call.request? = none := by
      simpa [Operation.isSendable] using hsendable
    simp only [Operation.start, step, Exchange.step, hrequest]
  | poll settings =>
    rw [hoperation] at hsendable
    cases hsendable

/-- And one that finds the lock taken has to wait. -/
theorem step_locked (hqueued : job.isQueued = true)
    (hsendable : job.operation.isSendable = true) (hlocked : station.locked = true) :
    job.step station = (.waiting job, station) := by
  obtain ⟨operation, rfl⟩ : ∃ operation : Operation, operation.start = job :=
    ⟨job.operation, start_operation hqueued⟩
  rw [operation_start] at hsendable
  cases operation with
  | exchange call =>
    obtain ⟨request, hrequest⟩ := Option.isSome_iff_exists.mp hsendable
    simp only [Operation.start, step, Exchange.step, hrequest, hlocked, if_true]
  | poll settings => simp only [Operation.start, step, Sweep.step, hlocked, if_true]

/-- A job whose turn it is holds the lock from then on, up to its end. -/
theorem step_keeps (hsendable : job.operation.isSendable = true)
    (hturn : station.locked = !job.isQueued) :
    Course.Meets (fun next station => next.isQueued = false ∧ station.locked = true)
      (fun _ station => station.locked = false) (job.step station) := by
  cases job with
  | exchange call stage =>
    have hkeeps : Exchange.Keeps (Exchange.step call stage station) := by
      by_cases hstage : stage = .queued
      · rw [hstage] at hturn ⊢
        exact Exchange.step_obtains hsendable hturn
      · rw [isQueued_exchange.mpr hstage] at hturn
        exact Exchange.step_keeps ⟨hstage, hturn⟩
    apply meets_of_exchange
    apply hkeeps.imp
    · exact fun _ _ hnext => ⟨isQueued_exchange.mpr hnext.1, hnext.2⟩
    · exact fun _ _ hnext => hnext
  | poll settings stage =>
    have hkeeps : Sweep.Keeps (Sweep.step settings.responseTimeout stage station) := by
      by_cases hstage : stage = .queued
      · rw [hstage] at hturn ⊢
        exact Sweep.step_obtains hturn
      · rw [isQueued_poll.mpr hstage] at hturn
        exact Sweep.step_keeps ⟨hstage, hturn⟩
    apply meets_of_poll
    apply hkeeps.imp
    · exact fun _ _ hnext => ⟨isQueued_poll.mpr hnext.1, hnext.2⟩
    · intro result next hnext
      exact (Listener.swept_keeps settings result next).2.2.1.trans hnext

/-- On two stations that agree at a moment, a step comes to the same. -/
theorem step_agrees {first second : Station τ} (job : Job) (h : first.Agrees second)
    (hnow : first.now = second.now) :
    (job.step first).1 = (job.step second).1 ∧
      (job.step first).2.Agrees (job.step second).2 ∧
      (job.step first).2.now = (job.step second).2.now := by
  have hbare := h.bare_eq hnow
  cases job with
  | exchange call stage =>
    simp only [step, Exchange.step_eq_overlay call stage first,
      Exchange.step_eq_overlay call stage second, ← hbare]
    obtain ⟨progress, recent⟩ := Exchange.step call stage first.bare
    cases progress <;> exact ⟨rfl, h.overlay recent, rfl⟩
  | poll settings stage =>
    simp only [step, Sweep.step_eq_overlay settings.responseTimeout stage first,
      Sweep.step_eq_overlay settings.responseTimeout stage second, ← hbare]
    obtain ⟨progress, recent⟩ := Sweep.step settings.responseTimeout stage first.bare
    cases progress with
    | moved later => exact ⟨rfl, h.overlay recent, rfl⟩
    | waiting later => exact ⟨rfl, h.overlay recent, rfl⟩
    | finished result =>
      refine ⟨rfl, (h.overlay recent).swept settings result, ?_⟩
      have hnow' := (Listener.swept_keeps settings result (first.overlay recent)).2.1
      exact hnow'.trans (Listener.swept_keeps settings result (second.overlay recent)).2.1.symm

end Job

namespace Actor

variable {α τ : Type}

/-- The user has no job in hand but one that waits for the lock. -/
def Awaits (actor : Actor α) : Prop :=
  ∀ job, actor.job? = some job → job.isQueued = true

theorem awaits_of_idle {actor : Actor α} (h : actor.job? = none) : actor.Awaits := by
  intro job hjob
  rw [h] at hjob
  cases hjob

theorem awaits_of_queued {actor : Actor α} {job : Job} (h : actor.job? = some job)
    (hqueued : job.isQueued = true) : actor.Awaits := by
  intro other hother
  rw [h] at hother
  cases hother
  exact hqueued

theorem awaits_ite {settings : Settings} {first second : Listener.Stage} (choice : Bool)
    (hfirst : (listener settings first : Actor α).Awaits)
    (hsecond : (listener settings second : Actor α).Awaits) :
    (listener settings (if choice then first else second) : Actor α).Awaits := by
  cases choice with
  | false => exact hsecond
  | true => exact hfirst

theorem awaits_talk (program : Dialogue α) : (talk { program }).Awaits := by
  intro job hjob
  cases program with
  | done value => cases hjob
  | ask call next =>
    cases hjob
    rfl

theorem idle_of_isFree {actor : Actor α} (h : actor.isFree = true) : actor.job? = none := by
  match actor with
  | .absent => rfl
  | .talk ⟨.done value, stage⟩ => rfl
  | .talk ⟨.ask call next, stage⟩ => cases h
  | .listener settings stage => cases h

variable [Transport τ]

/-- Whoever has a job in hand takes a step of it. -/
theorem step_of_job {actor : Actor α} {job : Job} (h : actor.job? = some job)
    (station : Station τ) :
    (actor.step station).2 = (job.step station).2 ∧
      match (job.step station).1 with
      | .moved next | .waiting next => (actor.step station).1.job? = some next
      | .finished _ => (actor.step station).1.Awaits := by
  match actor with
  | .absent => cases h
  | .talk ⟨.done value, stage⟩ => cases h
  | .talk ⟨.ask call next, stage⟩ =>
    cases h
    simp only [step, Conversation.step, Job.step]
    obtain ⟨progress, after⟩ := Exchange.step call stage station
    cases progress with
    | moved later => exact ⟨rfl, rfl⟩
    | waiting later => exact ⟨rfl, rfl⟩
    | finished result => exact ⟨rfl, awaits_talk (next result)⟩
  | .listener settings .starting => cases h
  | .listener settings (.switchingOn stage) =>
    cases h
    simp only [step, Listener.step, Job.step]
    obtain ⟨progress, after⟩ :=
      Exchange.step (Listener.call settings Listener.switchOn) stage station
    cases progress with
    | moved later => exact ⟨rfl, rfl⟩
    | waiting later => exact ⟨rfl, rfl⟩
    | finished result => exact ⟨rfl, awaits_of_idle rfl⟩
  | .listener settings .choosing => cases h
  | .listener settings (.sweeping stage) =>
    cases h
    simp only [step, Listener.step, Job.step]
    obtain ⟨progress, after⟩ := Sweep.step settings.responseTimeout stage station
    cases progress with
    | moved later => exact ⟨rfl, rfl⟩
    | waiting later => exact ⟨rfl, rfl⟩
    | finished result =>
      dsimp only
      refine ⟨rfl, awaits_of_idle ?_⟩
      rcases Listener.swept_cases settings result after with hpause | ⟨buffer, -, hdispatch⟩
      · rw [hpause]
        rfl
      · rw [hdispatch]
        rfl
  | .listener settings (.pausing timer) => cases h
  | .listener settings (.switchingOff stage) =>
    cases h
    simp only [step, Listener.step, Job.step]
    obtain ⟨progress, after⟩ :=
      Exchange.step (Listener.call settings Listener.switchOff) stage station
    cases progress with
    | moved later => exact ⟨rfl, rfl⟩
    | waiting later => exact ⟨rfl, rfl⟩
    | finished result => exact ⟨rfl, awaits_of_idle rfl⟩
  | .listener settings .stopping => cases h

/-- Whoever has none changes nothing that the lock protects. -/
theorem step_of_idle {actor : Actor α} (h : actor.job? = none) (station : Station τ) :
    station.Agrees (actor.step station).2 ∧ (actor.step station).2.now = station.now ∧
      (actor.step station).1.Awaits := by
  match actor with
  | .absent => exact ⟨.refl station, rfl, awaits_of_idle rfl⟩
  | .talk ⟨.done value, stage⟩ => exact ⟨.refl station, rfl, awaits_of_idle rfl⟩
  | .talk ⟨.ask call next, stage⟩ => cases h
  | .listener settings .starting =>
    refine ⟨.setListener station .idle, rfl, ?_⟩
    exact awaits_ite settings.subscribes (awaits_of_queued rfl rfl) (awaits_of_idle rfl)
  | .listener settings .choosing =>
    simp only [step, Listener.step]
    by_cases hstop : station.stopRequested
    · simp only [hstop, if_true]
      refine ⟨.refl station, trivial, ?_⟩
      exact awaits_ite settings.subscribes (awaits_of_queued rfl rfl) (awaits_of_idle rfl)
    · simp only [hstop]
      exact ⟨.setListener station .reading, rfl, awaits_of_queued rfl rfl⟩
  | .listener settings (.pausing timer) =>
    simp only [step, Listener.step]
    by_cases hstop : station.stopRequested
    · simp only [hstop, if_true]
      exact ⟨.refl station, trivial, awaits_of_idle rfl⟩
    · simp only [hstop]
      cases hask : timer.ask station.now with
      | some later => exact ⟨.refl station, rfl, awaits_of_idle rfl⟩
      | none => exact ⟨.refl station, rfl, awaits_of_idle rfl⟩
  | .listener settings .stopping =>
    exact ⟨⟨rfl, rfl, rfl, rfl, rfl, rfl, rfl⟩, rfl, awaits_of_idle rfl⟩
  | .listener settings (.switchingOn stage) => cases h
  | .listener settings (.sweeping stage) => cases h
  | .listener settings (.switchingOff stage) => cases h

end Actor

end CellModem
