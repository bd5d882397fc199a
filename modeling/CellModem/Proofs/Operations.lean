import CellModem.Exchange
import CellModem.Sweep

/-!
A step is made up of a few operations on the station. A relation between the earlier and the later
station that goes along with each of them goes along with every step, whatever its stage.
-/

namespace CellModem

namespace Station

variable {τ : Type} [Transport τ]

/-- The relation goes along with all that is done without a request. -/
structure Passive (relation : Station τ → Station τ → Prop) : Prop where
  refl (station : Station τ) : relation station station
  trans {first middle last : Station τ} (hfirst : relation first middle)
    (hlast : relation middle last) : relation first last
  lock (station : Station τ) : relation station station.lock
  unlock (station : Station τ) : relation station station.unlock
  align (station : Station τ) (alignment : Alignment) : relation station (station.align alignment)
  publishAll (station : Station τ) (purpose : Purpose) (signals : List Signal) :
    relation station (station.publishAll purpose signals)
  probe (station : Station τ) : relation station station.probe.2
  read (station : Station τ) (purpose : Purpose) (room : Nat) :
    relation station (station.read purpose room).2

/-- And with what is done about a request that was handed over before. -/
structure Attentive (relation : Station τ → Station τ → Prop) : Prop extends Passive relation where
  awaitWrite (station : Station τ) (request : Octets) :
    relation station (station.awaitWrite request).2
  flush (station : Station τ) : relation station station.flush.2
  awaitFlush (station : Station τ) : relation station station.awaitFlush.2

/-- And with what is done to hand over a request. -/
structure Active (relation : Station τ → Station τ → Prop) : Prop extends Attentive relation where
  write (station : Station τ) (request : Octets) : relation station (station.write request).2

end Station

namespace Realignment

variable {τ : Type} [Transport τ] {relation : Station τ → Station τ → Prop}

theorem step_relates (h : Station.Passive relation) (realignment : Realignment)
    (station : Station τ) : relation station (realignment.step station).2 := by
  obtain ⟨purge, timer⟩ := realignment
  unfold step
  by_cases hdone : purge.isDone
  · simp only [hdone, if_true]
    exact h.align station .aligned
  · simp only [hdone, Bool.false_eq_true, if_false]
    have hread := h.read station .realignment purge.buffer.room
    cases hrun : station.read .realignment purge.buffer.room with
    | mk attempt next =>
      rw [hrun] at hread
      have hgone := h.trans hread (h.align next .aligned)
      cases attempt with
      | waiting =>
        cases hask : timer.ask next.now with
        | some later =>
          simp only [hask]
          exact hread
        | none =>
          simp only [hask]
          exact hgone
      | failed => exact hgone
      | done chunk =>
        by_cases hend : chunk.val = []
        · simp only [hend, if_true]
          exact hgone
        · simp only [hend, if_false]
          exact h.trans hread (h.publishAll next .realignment _)

end Realignment

namespace Exchange

variable {τ : Type} [Transport τ] {relation : Station τ → Station τ → Prop}
  {station next : Station τ}

theorem finish_relates (h : Station.Passive relation) (hnext : relation station next)
    (result : Result) : relation station (finish next result).2 :=
  h.trans hnext (h.unlock next)

theorem abandon_relates (h : Station.Passive relation) (hnext : relation station next)
    (cause : Error) : relation station (abandon next cause).2 :=
  finish_relates h (h.trans hnext (h.align next .awaitingVerdict)) (.error cause)

theorem wait_relates (h : Station.Passive relation) (hnext : relation station next)
    (timer : Timer) (stage : Timer → Stage) : relation station (wait next timer stage).2 := by
  unfold wait
  cases timer.ask next.now with
  | some later => exact hnext
  | none => exact abandon_relates h hnext .timeout

theorem sent_relates (h : Station.Passive relation) {outcome : Attempt Nat × Station τ}
    (hnext : relation station outcome.2) (request : Octets) (timer : Timer) :
    relation station (sent request timer outcome).2 := by
  obtain ⟨attempt, next⟩ := outcome
  cases attempt with
  | waiting => exact wait_relates h hnext timer _
  | failed => exact finish_relates h hnext _
  | done taken =>
    by_cases htaken : taken = request.length
    · simp only [sent, htaken, if_true]
      exact hnext
    · simp only [sent, htaken, if_false]
      exact finish_relates h hnext _

theorem flushed_relates (h : Station.Passive relation) {outcome : Attempt Unit × Station τ}
    (hnext : relation station outcome.2) (call : Call) (timer : Timer) :
    relation station (flushed call timer outcome).2 := by
  obtain ⟨attempt, next⟩ := outcome
  cases attempt with
  | waiting => exact wait_relates h hnext timer _
  | failed => exact finish_relates h hnext _
  | done result => exact hnext

theorem received_relates (h : Station.Passive relation) (hnext : relation station next)
    (timer : Timer) (outcome : Reception.Outcome × List Signal) :
    relation station (received timer next outcome).2 := by
  obtain ⟨outcome, signals⟩ := outcome
  have hpublished := h.trans hnext (h.publishAll next .response signals)
  cases outcome with
  | unfinished buffer => exact hpublished
  | ended ending =>
    obtain ⟨verdict, payload, cut⟩ := ending
    have hcut := h.trans hpublished (h.align _ .midLine)
    cases verdict <;> cases cut
    · exact finish_relates h hpublished _
    · exact finish_relates h hcut _
    · exact finish_relates h hpublished _
    · exact finish_relates h hcut _

/-- A step that does not hand over the request. -/
theorem step_relates_of_attentive (h : Station.Attentive relation) (call : Call) {stage : Stage}
    (hstage : ∀ request timer, stage ≠ .sending request timer false) (station : Station τ) :
    relation station (step call stage station).2 := by
  cases stage with
  | queued =>
    unfold step
    cases call.request? with
    | none => exact h.refl station
    | some request =>
      by_cases hlocked : station.locked
      · simp only [hlocked, if_true]
        exact h.refl station
      · by_cases haligned : station.lock.alignment = .aligned
        · simp only [hlocked, haligned, if_true]
          exact h.lock station
        · simp only [hlocked, haligned, if_false]
          exact h.lock station
  | realigning request realignment =>
    have hnext := realignment.step_relates h.toPassive station
    simp only [step]
    cases hrun : realignment.step station with
    | mk progress next =>
      rw [hrun] at hnext
      cases progress <;> exact hnext
  | sending request timer begun =>
    cases begun with
    | false => exact absurd rfl (hstage request timer)
    | true => exact sent_relates h.toPassive (h.awaitWrite station request) request timer
  | flushing timer begun =>
    cases begun with
    | false => exact flushed_relates h.toPassive (h.flush station) call timer
    | true => exact flushed_relates h.toPassive (h.awaitFlush station) call timer
  | receiving buffer timer =>
    unfold step
    by_cases hfull : buffer.room = 0
    · simp only [hfull, if_true]
      exact abandon_relates h.toPassive (h.refl station) _
    · simp only [hfull, if_false]
      have hread := h.read station .response buffer.room
      cases hrun : station.read .response buffer.room with
      | mk attempt next =>
        rw [hrun] at hread
        cases attempt with
        | waiting => exact wait_relates h.toPassive hread timer _
        | failed => exact finish_relates h.toPassive hread _
        | done chunk =>
          by_cases hend : chunk.val = []
          · simp only [hend, if_true]
            exact finish_relates h.toPassive hread _
          · simp only [hend, if_false]
            exact received_relates h.toPassive hread timer _

theorem step_relates (h : Station.Active relation) (call : Call) (stage : Stage)
    (station : Station τ) : relation station (step call stage station).2 := by
  by_cases hstage : ∃ request timer, stage = .sending request timer false
  · obtain ⟨request, timer, rfl⟩ := hstage
    exact sent_relates h.toPassive (h.write station request) request timer
  · exact step_relates_of_attentive h.toAttentive call
      (fun request timer heq => hstage ⟨request, timer, heq⟩) station

end Exchange

namespace Sweep

variable {τ : Type} [Transport τ] {relation : Station τ → Station τ → Prop}
  {station next : Station τ}

theorem finish_relates (h : Station.Passive relation) (hnext : relation station next)
    (result : Result) : relation station (finish next result).2 :=
  h.trans hnext (h.unlock next)

theorem cutShort_relates (h : Station.Passive relation) (hnext : relation station next)
    (buffer : Buffer) : relation station (cutShort next buffer).2 :=
  finish_relates h (h.trans hnext (h.align next .midLine)) (.ok (some buffer))

theorem step_relates (h : Station.Passive relation) (timeout : Millis) (stage : Stage)
    (station : Station τ) : relation station (step timeout stage station).2 := by
  cases stage with
  | queued =>
    unfold step
    by_cases hlocked : station.locked
    · simp only [hlocked, if_true]
      exact h.refl station
    · simp only [hlocked]
      have hprobe := h.trans (h.lock station) (h.probe station.lock)
      cases hrun : station.lock.probe with
      | mk ready next =>
        rw [hrun] at hprobe
        match ready with
        | none => exact finish_relates h hprobe _
        | some false => exact finish_relates h hprobe _
        | some true =>
          by_cases haligned : next.alignment = .aligned
          · simp only [haligned, if_true]
            exact hprobe
          · simp only [haligned, if_false]
            exact hprobe
  | realigning realignment =>
    have hnext := realignment.step_relates h station
    simp only [step]
    cases hrun : realignment.step station with
    | mk progress next =>
      rw [hrun] at hnext
      cases progress with
      | moved later => exact hnext
      | waiting later => exact hnext
      | finished result => exact finish_relates h hnext _
  | reading =>
    simp only [step]
    have hread := h.read station .sweep (Buffer.empty Limits.response).room
    cases hrun : station.read .sweep (Buffer.empty Limits.response).room with
    | mk attempt next =>
      rw [hrun] at hread
      cases attempt with
      | waiting => exact hread
      | failed => exact finish_relates h hread _
      | done chunk =>
        by_cases hend : chunk.val = []
        · simp only [hend, if_true]
          exact finish_relates h hread _
        · simp only [hend, if_false]
          exact hread
  | completing buffer timer =>
    unfold step
    by_cases hended : buffer.pending.getLast? = some Line.lineFeed
    · simp only [hended, if_true]
      exact finish_relates h (h.refl station) _
    · by_cases hfull : buffer.room = 0
      · simp only [hended, hfull, if_true, if_false]
        exact cutShort_relates h (h.refl station) buffer
      · simp only [hended, hfull, if_false]
        have hread := h.read station .sweep buffer.room
        cases hrun : station.read .sweep buffer.room with
        | mk attempt next =>
          rw [hrun] at hread
          cases attempt with
          | waiting =>
            cases hask : timer.ask next.now with
            | some later =>
              simp only [hask]
              exact hread
            | none =>
              simp only [hask]
              exact cutShort_relates h hread buffer
          | failed => exact cutShort_relates h hread buffer
          | done chunk =>
            by_cases hend : chunk.val = []
            · simp only [hend, if_true]
              exact cutShort_relates h hread buffer
            · simp only [hend, if_false]
              exact hread

end Sweep

end CellModem
