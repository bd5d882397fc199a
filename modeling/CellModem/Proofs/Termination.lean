import CellModem.Bench.Modem
import CellModem.Proofs.Conversation
import CellModem.Proofs.Isolation

/-!
Nothing that a transport does keeps an exchange from coming to an end, once it has the lock: it may
fail, take too little or too much, stay silent or send whatever it likes. All that is asked of a
transport is that it runs out of bytes if it is read again and again at one moment. Then sooner or
later the exchange has to wait, and it does not wait beyond its time.
-/

namespace CellModem

namespace Course

variable {τ σ α : Type} {step : Course τ σ α} {post : α → Station τ → Prop}

/-- Something that waits no more once `target` has passed, and has only so much work to do at any
moment, comes to an end. -/
theorem completes_of_work {invariant : σ → Station τ → Prop} {work : Station τ → Station τ → Prop}
    (hwork : WellFounded work) (target : Millis)
    (htime : ∀ state station moment, invariant state station →
      invariant state (station.passTo moment))
    (hstep : ∀ state station, invariant state station →
      (∃ state' next, step state station = (.moved state', next) ∧ invariant state' next ∧
        next.now = station.now ∧ work next station) ∨
      (station.now < target ∧
        ∃ state' next, step state station = (.waiting state', next) ∧ invariant state' next) ∨
      Completes step state station post)
    {state : σ} {station : Station τ} (hstart : invariant state station) :
    Completes step state station post := by
  have hlate : ∀ state station, invariant state station → target ≤ station.now →
      Completes step state station post := by
    intro state station
    induction station using hwork.induction generalizing state with
    | h station ih =>
      intro hinvariant hnow
      rcases hstep state station hinvariant with ⟨state', next, hrun, hnext, hsame, hless⟩ |
        ⟨hearly, -⟩ | hdone
      · exact completes_of_moved hrun (ih next hless state' hnext (hsame ▸ hnow))
      · exact absurd hnow (Nat.not_le_of_lt hearly)
      · exact hdone
  -- the work of a moment ends, and if that is with a wait, the next moment goes on
  have hmoment : ∀ clock, Unbounded clock →
      (∀ state (next : Station τ), invariant state (next.passTo (clock 0)) →
        ∃ steps result final,
          pace step (fun n => clock (n + 1)) steps state (next.passTo (clock 0)) =
            (.finished result, final) ∧ post result final) →
      ∀ state station, invariant state station → ∃ steps result final,
        pace step clock steps state station = (.finished result, final) ∧ post result final := by
    intro clock hclock hlater state station
    induction station using hwork.induction generalizing state with
    | h station ih =>
      intro hinvariant
      rcases hstep state station hinvariant with ⟨state', next, hrun, hnext, -, hless⟩ |
        ⟨-, state', next, hrun, hnext⟩ | hdone
      · obtain ⟨steps, result, final, hsteps, hpost⟩ := ih next hless state' hnext
        exact ⟨steps + 1, result, final, by rw [pace, hrun]; exact hsteps, hpost⟩
      · obtain ⟨steps, result, final, hsteps, hpost⟩ :=
          hlater state' next (htime _ _ _ hnext)
        exact ⟨steps + 1, result, final, by rw [pace, hrun]; exact hsteps, hpost⟩
      · exact hdone clock hclock
  intro clock hclock
  obtain ⟨n, hn⟩ := hclock target
  induction n generalizing clock state station with
  | zero =>
    refine hmoment clock hclock (fun state next hnext => ?_) state station hstart
    exact hlate state _ hnext (Nat.le_trans hn (Nat.le_max_right _ _)) _ hclock.later
  | succ n ih =>
    exact hmoment clock hclock (fun state next hnext => ih hnext _ hclock.later hn) state station
      hstart

end Course

/-- A read at that moment leads from one state of the transport to another, and brings bytes. -/
def Draws {τ : Type} [Transport τ] (now : Millis) (after before : τ) : Prop :=
  ∃ room, ∃ chunk : Chunk room,
    Transport.read now room before = (.done chunk, after) ∧ chunk.val ≠ []

/-- Whoever reads again and again at one moment comes to the end of what is there. -/
def Exhaustible (τ : Type) [Transport τ] : Prop :=
  ∀ now, WellFounded (Draws (τ := τ) now)

/-- To log the accesses makes no difference to that. -/
theorem Exhaustible.logged {τ : Type} [Transport τ] (h : Exhaustible τ) :
    Exhaustible (Logged τ) := by
  intro now
  refine Subrelation.wf ?_ (InvImage.wf Logged.transport (h now))
  rintro after before ⟨room, chunk, hread, hbytes⟩
  obtain ⟨hattempt, hafter⟩ := Prod.mk.inj hread
  refine ⟨room, chunk, ?_, hbytes⟩
  rw [← hafter]
  exact Prod.ext hattempt rfl

/-- A timer that lets somebody wait goes on to the same moment, and if it was asked before, that
moment is still to come. -/
theorem Timer.of_ask {timer later : Timer} {now : Millis} (h : timer.ask now = some later) :
    later = { timer with asked := true } ∧ (timer.asked = true → now < timer.deadline) := by
  cases hasked : timer.asked with
  | false =>
    rw [Timer.ask_of_not_asked hasked] at h
    exact ⟨(Option.some.inj h).symm, fun h => by cases h⟩
  | true =>
    by_cases hearly : now < timer.deadline
    · rw [Timer.ask_of_lt hearly] at h
      exact ⟨(Option.some.inj h).symm, fun _ => hearly⟩
    · rw [Timer.ask_of_le hasked (Nat.le_of_not_lt hearly)] at h
      cases h

namespace Exchange

variable {τ : Type}

/-- How many stages are still ahead. -/
def Stage.rank : Stage → Nat
  | .queued => 4
  | .realigning _ _ => 3
  | .sending _ _ _ => 2
  | .flushing _ _ => 1
  | .receiving _ _ => 0

def Stage.timer? : Stage → Option Timer
  | .queued => none
  | .realigning _ realignment => some realignment.timer
  | .sending _ timer _ | .flushing timer _ | .receiving _ timer => some timer

/-- The work that is done at one moment without getting to another stage: bytes are read. -/
def Reads [Transport τ] (next station : Station τ) : Prop :=
  next.now = station.now ∧ Draws station.now next.transport station.transport

theorem wellFounded_reads [Transport τ] (h : Exhaustible τ) :
    WellFounded (Reads (τ := τ)) := by
  have hacc : ∀ now transport, ∀ station : Station τ, station.now = now →
      station.transport = transport → Acc Reads station := by
    intro now transport
    induction transport using (h now).induction with
    | h transport ih =>
      rintro station rfl rfl
      exact ⟨_, fun next ⟨hnow, hdraws⟩ => ih next.transport hdraws next hnow rfl⟩
  exact ⟨fun station => hacc _ _ station rfl rfl⟩

/-- All that a step can come to: the end, a later stage, bytes, or a wait that the timer allows. -/
def Advances [Transport τ] (stage : Stage) (station : Station τ) :
    Progress Stage Result × Station τ → Prop
  | (.finished _, _) => True
  | (.moved later, next) =>
    later.rank < stage.rank ∨
      later.rank = stage.rank ∧ later.timer? = stage.timer? ∧ Reads next station
  | (.waiting later, _) =>
    later.rank = stage.rank ∧ ∃ timer timer', stage.timer? = some timer ∧
      timer.ask station.now = some timer' ∧ later.timer? = some timer'

variable [Transport τ] {station next : Station τ}

theorem advances_wait {stage : Stage} {timer : Timer} {later : Timer → Stage}
    (hnow : next.now = station.now) (htimer : stage.timer? = some timer)
    (hlater : ∀ timer, (later timer).rank = stage.rank ∧ (later timer).timer? = some timer) :
    Advances stage station (wait next timer later) := by
  unfold wait
  cases hask : timer.ask next.now with
  | none => trivial
  | some timer' =>
    rw [hnow] at hask
    exact ⟨(hlater timer').1, timer, timer', htimer, hask, (hlater timer').2⟩

theorem advances_sent {request : Octets} {timer : Timer} {begun : Bool}
    {outcome : Attempt Nat × Station τ} (hnow : outcome.2.now = station.now) :
    Advances (.sending request timer begun) station (sent request timer outcome) := by
  obtain ⟨attempt, next⟩ := outcome
  cases attempt with
  | waiting => exact advances_wait hnow rfl fun _ => ⟨rfl, rfl⟩
  | failed => trivial
  | done taken =>
    by_cases htaken : taken = request.length
    · simp only [sent, htaken, if_true]
      exact Or.inl (Nat.lt_succ_self _)
    · simp only [sent, htaken, if_false]
      trivial

theorem advances_flushed (call : Call) {timer : Timer} {begun : Bool}
    {outcome : Attempt Unit × Station τ} (hnow : outcome.2.now = station.now) :
    Advances (.flushing timer begun) station (flushed call timer outcome) := by
  obtain ⟨attempt, next⟩ := outcome
  cases attempt with
  | waiting => exact advances_wait hnow rfl fun _ => ⟨rfl, rfl⟩
  | failed => trivial
  | done result => exact Or.inl (Nat.lt_succ_self _)

theorem advances_received {buffer : Buffer} {timer : Timer} (hreads : Reads next station)
    (outcome : Reception.Outcome × List Signal) :
    Advances (.receiving buffer timer) station (received timer next outcome) := by
  obtain ⟨outcome, signals⟩ := outcome
  cases outcome with
  | unfinished buffer =>
    refine Or.inr ⟨rfl, rfl, ?_⟩
    rw [Station.publishAll_eq]
    exact hreads
  | ended ending =>
    rw [received_ended]
    trivial

theorem reads_of_read {purpose : Purpose} {room : Nat} {chunk : Chunk room}
    (hrun : station.read purpose room = (.done chunk, next)) (hbytes : chunk.val ≠ []) :
    Reads next station := by
  obtain ⟨hread, hnow⟩ := Station.transport_of_read hrun
  exact ⟨hnow, room, chunk, hread, hbytes⟩

/-- Whoever has the lock advances with every step. -/
theorem step_advances (call : Call) {stage : Stage} (hstage : stage ≠ .queued)
    (station : Station τ) : Advances stage station (step call stage station) := by
  cases stage with
  | queued => exact absurd rfl hstage
  | realigning request realignment =>
    obtain ⟨purge, timer⟩ := realignment
    simp only [step, Realignment.step]
    by_cases hdone : purge.isDone
    · simp only [hdone, if_true]
      exact Or.inl (Nat.lt_succ_self _)
    · simp only [hdone, Bool.false_eq_true, if_false]
      cases hrun : station.read .realignment purge.buffer.room with
      | mk attempt next =>
        have hnow := (Station.transport_of_read hrun).2
        cases attempt with
        | waiting =>
          cases hask : timer.ask next.now with
          | none =>
            simp only [hask]
            exact Or.inl (Nat.lt_succ_self _)
          | some timer' =>
            simp only [hask]
            rw [hnow] at hask
            exact ⟨rfl, timer, timer', rfl, hask, rfl⟩
        | failed => exact Or.inl (Nat.lt_succ_self _)
        | done chunk =>
          by_cases hend : chunk.val = []
          · simp only [hend, if_true]
            exact Or.inl (Nat.lt_succ_self _)
          · simp only [hend, if_false]
            have hreads := reads_of_read hrun hend
            refine Or.inr ⟨rfl, rfl, ?_⟩
            rw [Station.publishAll_eq]
            exact hreads
  | sending request timer begun =>
    cases begun with
    | false => exact advances_sent (Station.noteWrite_transport _ request _).2
    | true => exact advances_sent (Station.noteWrite_transport _ request _).2
  | flushing timer begun =>
    cases begun with
    | false => exact advances_flushed call (Station.noteFlush_transport _ _).2
    | true => exact advances_flushed call (Station.noteFlush_transport _ _).2
  | receiving buffer timer =>
    unfold step
    by_cases hfull : buffer.room = 0
    · simp only [hfull, if_true]
      trivial
    · simp only [hfull, if_false]
      cases hrun : station.read .response buffer.room with
      | mk attempt next =>
        have hnow := (Station.transport_of_read hrun).2
        cases attempt with
        | waiting => exact advances_wait hnow rfl fun _ => ⟨rfl, rfl⟩
        | failed => trivial
        | done chunk =>
          by_cases hend : chunk.val = []
          · simp only [hend, if_true]
            trivial
          · simp only [hend, if_false]
            exact advances_received (reads_of_read hrun hend) _

/-- In its last wait, at a stage with a timer that was asked before, an exchange comes to its end if
every later stage does. -/
theorem completes_of_asked (hexhaustible : Exhaustible τ) (call : Call) {rank : Nat}
    (hlater : ∀ stage (station : Station τ), stage.rank < rank →
      Course.Completes (step call) stage station fun _ _ => True)
    {stage : Stage} {timer : Timer} (hrank : stage.rank = rank) (hbelow : rank < 4)
    (htimer : stage.timer? = some timer) (hasked : timer.asked = true) (station : Station τ) :
    Course.Completes (step call) stage station fun _ _ => True := by
  let invariant : Stage → Station τ → Prop := fun stage _ =>
    stage.rank = rank ∧ stage.timer? = some timer
  refine Course.completes_of_work (wellFounded_reads hexhaustible) timer.deadline
    (fun _ _ _ h => h) ?_ (show invariant stage station from ⟨hrank, htimer⟩)
  rintro stage station ⟨rfl, htimer⟩
  have hstage : stage ≠ .queued := by
    rintro rfl
    exact absurd hbelow (Nat.lt_irrefl 4)
  have hadvances := step_advances call hstage station
  cases hrun : step call stage station with
  | mk progress next =>
    rw [hrun] at hadvances
    cases progress with
    | finished result => exact Or.inr (Or.inr (Course.completes_of_finished hrun trivial))
    | moved later =>
      rcases hadvances with hlower | ⟨hsame, hkept, hreads⟩
      · exact Or.inr (Or.inr (Course.completes_of_moved hrun (hlater later next hlower)))
      · exact Or.inl ⟨later, next, rfl, ⟨hsame, hkept.trans htimer⟩, hreads.1, hreads⟩
    | waiting later =>
      obtain ⟨hsame, timer', timer'', htimer', hask, hkept⟩ := hadvances
      cases htimer.symm.trans htimer'
      obtain ⟨rfl, hearly⟩ := Timer.of_ask hask
      obtain ⟨deadline, asked⟩ := timer
      obtain rfl : asked = true := hasked
      exact Or.inr (Or.inl ⟨hearly rfl, later, next, rfl, hsame, hkept⟩)

/-- Whoever has the lock comes to an end. -/
theorem completes_of_begun (hexhaustible : Exhaustible τ) (call : Call) {stage : Stage}
    (hstage : stage ≠ .queued) (station : Station τ) :
    Course.Completes (step call) stage station fun _ _ => True := by
  have hranks : ∀ rank stage (station : Station τ), stage.rank = rank → rank < 4 →
      Course.Completes (step call) stage station fun _ _ => True := by
    intro rank
    induction rank using Nat.strong_induction_on with
    | h rank ih =>
      intro stage station
      -- until the first wait there is only the work of one moment
      induction station using (wellFounded_reads hexhaustible).induction generalizing stage with
      | h station hwork =>
        rintro rfl hbelow
        have hlater : ∀ later (next : Station τ), later.rank < stage.rank →
            Course.Completes (step call) later next fun _ _ => True :=
          fun later next hlower => ih _ hlower later next rfl (Nat.lt_trans hlower hbelow)
        have hstage : stage ≠ .queued := by
          rintro rfl
          exact absurd hbelow (Nat.lt_irrefl 4)
        have hadvances := step_advances call hstage station
        cases hrun : step call stage station with
        | mk progress next =>
          rw [hrun] at hadvances
          cases progress with
          | finished result => exact Course.completes_of_finished hrun trivial
          | moved later =>
            rcases hadvances with hlower | ⟨hsame, -, hreads⟩
            · exact Course.completes_of_moved hrun (hlater later next hlower)
            · exact Course.completes_of_moved hrun (hwork next hreads later hsame hbelow)
          | waiting later =>
            obtain ⟨hsame, timer, timer', -, hask, hkept⟩ := hadvances
            have hasked : timer'.asked = true := by
              obtain ⟨rfl, -⟩ := Timer.of_ask hask
              rfl
            refine Course.completes_of_waiting hrun fun moment => ?_
            exact completes_of_asked hexhaustible call hlater hsame hbelow hkept hasked _
  cases stage with
  | queued => exact absurd rfl hstage
  | realigning _ _ | sending _ _ _ | flushing _ _ | receiving _ _ =>
    exact hranks _ _ station rfl (by simp [Stage.rank])

/-- An exchange that finds the lock free comes to an end, whatever the transport does, wherever the
stream stands and however long the time for the response is. -/
theorem completes_of_unlocked (hexhaustible : Exhaustible τ) (call : Call) {station : Station τ}
    (hunlocked : station.locked = false) :
    Course.Completes (step call) .queued station fun _ _ => True := by
  cases hrequest : call.request? with
  | none =>
    have hrun : step call .queued station = (.finished (.error .invalidArgument), station) := by
      simp only [step, hrequest]
    exact Course.completes_of_finished hrun trivial
  | some request =>
    by_cases haligned : station.lock.alignment = .aligned
    · have hrun : step call .queued station =
          (.moved (startSending call request station.lock), station.lock) := by
        simp only [step, hrequest, hunlocked, haligned, Bool.false_eq_true, if_false, if_true]
      exact Course.completes_of_moved hrun
        (completes_of_begun hexhaustible call (fun h => by cases h) _)
    · have hrun : step call .queued station =
          (.moved (.realigning request (.start station.lock call.timeout)), station.lock) := by
        simp only [step, hrequest, hunlocked, haligned, Bool.false_eq_true, if_false]
      exact Course.completes_of_moved hrun
        (completes_of_begun hexhaustible call (fun h => by cases h) _)

end Exchange

namespace Bench.Modem

/-- A read that brings bytes takes them off the wire. -/
theorem left_lt_of_draws {now : Millis} {after before : Modem} (h : Draws now after before) :
    after.left < before.left := by
  obtain ⟨room, chunk, hread, hbytes⟩ := h
  change before.read now room = (.done chunk, after) at hread
  unfold Modem.read at hread
  cases hwire : before.wire with
  | nil =>
    simp only [hwire] at hread
    split at hread <;> cases hread
    exact absurd rfl hbytes
  | cons packet wire =>
    simp only [hwire] at hread
    split at hread
    case isTrue => cases hread
    case isFalse =>
      cases hcontent : packet.content with
      | ended =>
        simp only [hcontent] at hread
        cases hread
        exact absurd rfl hbytes
      | broken | unready =>
        simp only [hcontent] at hread
        cases hread
      | data bytes =>
        simp only [hcontent] at hread
        cases hread
        simp only [left, hwire, List.flatMap_cons, hcontent, List.length_append]
        change bytes.take (min room (before.chunk.getD bytes.length)) ≠ [] at hbytes
        generalize min room (before.chunk.getD bytes.length) = count at hbytes ⊢
        have htaken : 0 < (bytes.take count).length := List.length_pos_iff.mpr hbytes
        have hsplit : (bytes.take count).length + (bytes.drop count).length = bytes.length := by
          rw [← List.length_append, List.take_append_drop]
        cases hleft : (bytes.drop count).isEmpty with
        | true =>
          simp only [if_true]
          omega
        | false =>
          simp only [Bool.false_eq_true, if_false, List.flatMap_cons, List.length_append]
          omega

/-- The wire of the scripted modem is finite. -/
theorem exhaustible : Exhaustible Modem :=
  fun _ => Subrelation.wf left_lt_of_draws (InvImage.wf left Nat.lt_wfRel.wf)

end Bench.Modem

end CellModem
