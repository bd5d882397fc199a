import CellModem.Proofs.Exchange
import CellModem.Proofs.Frame
import CellModem.System

/-!
The lock, and what it protects. A job holds the lock from the step that obtains it to the step that
ends it. What a step of it comes to depends on nothing but what only the holder of the lock changes,
and the clock.
-/

namespace CellModem

def Event.isListener : Event → Bool
  | .listener _ => true
  | _ => false

namespace Station

variable {τ : Type}

theorem noteRead_locked {room : Nat} (station : Station τ) (purpose : Purpose)
    (attempt : Attempt (Chunk room)) :
    (station.noteRead purpose attempt).locked = station.locked := by
  cases attempt <;> rfl

theorem read_locked [Transport τ] (station : Station τ) (purpose : Purpose) (room : Nat) :
    (station.read purpose room).2.locked = station.locked :=
  noteRead_locked _ purpose _

/-- What happened, but for the state of the listener. -/
def happened (station : Station τ) : List Event :=
  station.journal.filter fun event => !event.isListener

theorem published_eq_happened (station : Station τ) :
    station.published = station.happened.reverse.filterMap Event.published? := by
  unfold published happened
  rw [← List.filter_reverse, List.filterMap_filter]
  congr
  funext event
  cases event <;> rfl

/-- The stations have in common what only the holder of the lock changes. -/
structure Agrees (first second : Station τ) : Prop where
  transport : first.transport = second.transport
  locked : first.locked = second.locked
  alignment : first.alignment = second.alignment
  board : first.board = second.board
  dispatched : first.dispatched = second.dispatched
  discarded : first.discarded = second.discarded
  happened : first.happened = second.happened

namespace Agrees

variable {first second : Station τ}

theorem refl (station : Station τ) : Agrees station station :=
  ⟨rfl, rfl, rfl, rfl, rfl, rfl, rfl⟩

theorem trans {third : Station τ} (h : Agrees first second) (h' : Agrees second third) :
    Agrees first third where
  transport := h.transport.trans h'.transport
  locked := h.locked.trans h'.locked
  alignment := h.alignment.trans h'.alignment
  board := h.board.trans h'.board
  dispatched := h.dispatched.trans h'.dispatched
  discarded := h.discarded.trans h'.discarded
  happened := h.happened.trans h'.happened

/-- So the same signals were published, in the same order. -/
theorem published_eq (h : Agrees first second) : first.published = second.published := by
  rw [published_eq_happened, published_eq_happened, h.happened]

theorem bare_eq (h : Agrees first second) (hnow : first.now = second.now) :
    first.bare = second.bare := by
  simp only [bare, h.transport, h.locked, h.alignment, hnow]

theorem overlay (h : Agrees first second) (recent : Station τ) :
    Agrees (first.overlay recent) (second.overlay recent) where
  transport := rfl
  locked := rfl
  alignment := rfl
  board := congrArg (recent.published.foldl Bulletin.post) h.board
  dispatched := h.dispatched
  discarded := h.discarded
  happened := by
    have hhappened := h.happened
    simp only [Station.happened, Station.overlay, List.filter_append] at hhappened ⊢
    rw [hhappened]

theorem setListener (station : Station τ) (state : ListenerState) :
    Agrees station (station.setListener state) :=
  ⟨rfl, rfl, rfl, rfl, rfl, rfl, rfl⟩

theorem setListener_both (h : Agrees first second) (state : ListenerState) :
    Agrees (first.setListener state) (second.setListener state) :=
  { h with }

theorem publishAll (h : Agrees first second) (purpose : Purpose) (signals : List Signal) :
    Agrees (first.publishAll purpose signals) (second.publishAll purpose signals) := by
  have hhappened := h.happened
  simp only [publishAll_eq]
  refine ⟨h.transport, h.locked, h.alignment, ?_, h.dispatched, h.discarded, ?_⟩
  · simp only [h.board]
  · simp only [Station.happened, List.filter_append] at hhappened ⊢
    rw [hhappened]

theorem count (h : Agrees first second) (dispatched discarded : Nat) :
    Agrees (first.count dispatched discarded) (second.count dispatched discarded) where
  transport := h.transport
  locked := h.locked
  alignment := h.alignment
  board := h.board
  dispatched := congrArg (· + UInt32.ofNat dispatched) h.dispatched
  discarded := congrArg (· + UInt32.ofNat discarded) h.discarded
  happened := h.happened

theorem swept (h : Agrees first second) (settings : Settings) (result : Sweep.Result) :
    Agrees (Listener.swept settings result first).2 (Listener.swept settings result second).2 := by
  match result with
  | .error cause => exact h.setListener_both .idle
  | .ok none => exact h.setListener_both .idle
  | .ok (some buffer) =>
    by_cases hempty : buffer.filled = 0
    · simp only [Listener.swept, hempty, if_true]
      exact h.setListener_both .idle
    · simp only [Listener.swept, hempty, if_false]
      have hpublished := (h.setListener_both .dispatching).publishAll .sweep
        (Listener.Dispatch.ofBuffer buffer).signals
      exact (hpublished.count _ _).setListener_both .idle

end Agrees

end Station

namespace Exchange

variable {τ : Type}

/-- The exchange has obtained the lock. -/
def Holds (stage : Stage) (station : Station τ) : Prop :=
  stage ≠ .queued ∧ station.locked = true

/-- It is still held, or it was given back at the end. -/
abbrev Keeps (outcome : Progress Stage Result × Station τ) : Prop :=
  Course.Meets Holds (fun _ station => station.locked = false) outcome

variable {station : Station τ}

theorem keeps_finish (station : Station τ) (result : Result) : Keeps (finish station result) :=
  rfl

theorem keeps_wait (hlocked : station.locked = true) (timer : Timer) {stage : Timer → Stage}
    (hstage : ∀ timer, stage timer ≠ .queued) : Keeps (wait station timer stage) := by
  unfold wait
  cases timer.ask station.now with
  | some later => exact ⟨hstage later, hlocked⟩
  | none => exact keeps_finish _ _

theorem keeps_sent {outcome : Attempt Nat × Station τ} (hlocked : outcome.2.locked = true)
    (request : Octets) (timer : Timer) : Keeps (sent request timer outcome) := by
  obtain ⟨attempt, station⟩ := outcome
  cases attempt with
  | waiting => exact keeps_wait hlocked timer fun _ => by simp
  | failed => exact keeps_finish _ _
  | done taken =>
    by_cases htaken : taken = request.length
    · simp only [sent, htaken, if_true]
      exact ⟨by simp, hlocked⟩
    · simp only [sent, htaken, if_false]
      exact keeps_finish _ _

theorem keeps_flushed {outcome : Attempt Unit × Station τ} (hlocked : outcome.2.locked = true)
    (call : Call) (timer : Timer) : Keeps (flushed call timer outcome) := by
  obtain ⟨attempt, station⟩ := outcome
  cases attempt with
  | waiting => exact keeps_wait hlocked timer fun _ => by simp
  | failed => exact keeps_finish _ _
  | done result => exact ⟨by simp, hlocked⟩

theorem keeps_received (hlocked : station.locked = true) (timer : Timer)
    (outcome : Reception.Outcome × List Signal) : Keeps (received timer station outcome) := by
  obtain ⟨outcome, signals⟩ := outcome
  cases outcome with
  | unfinished buffer =>
    refine ⟨by simp, ?_⟩
    rw [Station.publishAll_eq]
    exact hlocked
  | ended ending =>
    rw [received_ended]
    exact keeps_finish _ _

variable [Transport τ]

/-- An exchange that has obtained the lock keeps it until it ends. -/
theorem step_keeps {call : Call} {stage : Stage} (h : Holds stage station) :
    Keeps (step call stage station) := by
  obtain ⟨hstage, hlocked⟩ := h
  cases stage with
  | queued => exact absurd rfl hstage
  | realigning request realignment =>
    have hnext := realignment.step_keeps station
    simp only [step]
    cases hrun : realignment.step station with
    | mk progress next =>
      rw [hrun] at hnext
      cases progress with
      | moved later => exact ⟨by simp, hnext.1.trans hlocked⟩
      | waiting later => exact ⟨by simp, hnext.1.trans hlocked⟩
      | finished result => exact ⟨by simp [startSending], hnext.1.trans hlocked⟩
  | sending request timer begun =>
    cases begun with
    | false =>
      have hstanding := congrArg Standing.locked (station.standing_write request)
      exact keeps_sent (hstanding.trans hlocked) request timer
    | true =>
      have hstanding := congrArg Standing.locked (station.standing_awaitWrite request)
      exact keeps_sent (hstanding.trans hlocked) request timer
  | flushing timer begun =>
    cases begun with
    | false =>
      have hstanding := congrArg Standing.locked station.standing_flush
      exact keeps_flushed (hstanding.trans hlocked) call timer
    | true =>
      have hstanding := congrArg Standing.locked station.standing_awaitFlush
      exact keeps_flushed (hstanding.trans hlocked) call timer
  | receiving buffer timer =>
    unfold step
    by_cases hfull : buffer.room = 0
    · simp only [hfull, if_true]
      exact keeps_finish _ _
    · simp only [hfull, if_false]
      have hread := (station.read_locked .response buffer.room).trans hlocked
      cases hrun : station.read .response buffer.room with
      | mk attempt next =>
        rw [hrun] at hread
        cases attempt with
        | waiting => exact keeps_wait hread timer fun _ => by simp
        | failed => exact keeps_finish _ _
        | done chunk =>
          by_cases hend : chunk.val = []
          · simp only [hend, if_true]
            exact keeps_finish _ _
          · simp only [hend, if_false]
            exact keeps_received hread timer _

/-- An exchange that finds the lock free obtains it. -/
theorem step_obtains {call : Call} (hsendable : call.request?.isSome = true)
    (hfree : station.locked = false) : Keeps (step call .queued station) := by
  obtain ⟨request, hrequest⟩ := Option.isSome_iff_exists.mp hsendable
  unfold step
  by_cases haligned : station.lock.alignment = .aligned
  · simp only [hrequest, hfree, haligned, if_true]
    exact ⟨by simp [startSending], rfl⟩
  · simp only [hrequest, hfree, haligned, if_false]
    exact ⟨by simp, rfl⟩

end Exchange

namespace Sweep

variable {τ : Type}

/-- The sweep has obtained the lock. -/
def Holds (stage : Stage) (station : Station τ) : Prop :=
  stage ≠ .queued ∧ station.locked = true

abbrev Keeps (outcome : Progress Stage Result × Station τ) : Prop :=
  Course.Meets Holds (fun _ station => station.locked = false) outcome

theorem keeps_finish (station : Station τ) (result : Result) : Keeps (finish station result) :=
  rfl

theorem keeps_cutShort (station : Station τ) (buffer : Buffer) : Keeps (cutShort station buffer) :=
  rfl

variable [Transport τ] {station : Station τ}

/-- A sweep that has obtained the lock keeps it until it ends. -/
theorem step_keeps {timeout : Millis} {stage : Stage} (h : Holds stage station) :
    Keeps (step timeout stage station) := by
  obtain ⟨hstage, hlocked⟩ := h
  cases stage with
  | queued => exact absurd rfl hstage
  | realigning realignment =>
    have hnext := realignment.step_keeps station
    simp only [step]
    cases hrun : realignment.step station with
    | mk progress next =>
      rw [hrun] at hnext
      cases progress with
      | moved later => exact ⟨by simp, hnext.1.trans hlocked⟩
      | waiting later => exact ⟨by simp, hnext.1.trans hlocked⟩
      | finished result => exact keeps_finish _ _
  | reading =>
    simp only [step]
    have hread := (station.read_locked .sweep (Buffer.empty Limits.response).room).trans hlocked
    cases hrun : station.read .sweep (Buffer.empty Limits.response).room with
    | mk attempt next =>
      rw [hrun] at hread
      cases attempt with
      | waiting => exact ⟨by simp, hread⟩
      | failed => exact keeps_finish _ _
      | done chunk =>
        by_cases hend : chunk.val = []
        · simp only [hend, if_true]
          exact keeps_finish _ _
        · simp only [hend, if_false]
          exact ⟨by simp, hread⟩
  | completing buffer timer =>
    unfold step
    by_cases hended : buffer.pending.getLast? = some Line.lineFeed
    · simp only [hended, if_true]
      exact keeps_finish _ _
    · by_cases hfull : buffer.room = 0
      · simp only [hended, hfull, if_true, if_false]
        exact keeps_cutShort _ _
      · simp only [hended, hfull, if_false]
        have hread := (station.read_locked .sweep buffer.room).trans hlocked
        cases hrun : station.read .sweep buffer.room with
        | mk attempt next =>
          rw [hrun] at hread
          cases attempt with
          | waiting =>
            cases hask : timer.ask next.now with
            | some later =>
              simp only [hask]
              exact ⟨by simp, hread⟩
            | none =>
              simp only [hask]
              exact keeps_cutShort _ _
          | failed => exact keeps_cutShort _ _
          | done chunk =>
            by_cases hend : chunk.val = []
            · simp only [hend, if_true]
              exact keeps_cutShort _ _
            · simp only [hend, if_false]
              exact ⟨by simp, hread⟩

/-- A sweep that finds the lock free obtains it. -/
theorem step_obtains {timeout : Millis} (hfree : station.locked = false) :
    Keeps (step timeout .queued station) := by
  simp only [step, hfree]
  cases hrun : station.lock.probe with
  | mk ready next =>
    have hlocked : next.locked = true := congrArg (fun outcome => outcome.2.locked) hrun.symm
    cases ready with
    | none => exact keeps_finish _ _
    | some found =>
      cases found with
      | false => exact keeps_finish _ _
      | true =>
        by_cases haligned : next.alignment = .aligned
        · simp only [haligned, if_true]
          exact ⟨by simp, hlocked⟩
        · simp only [haligned, if_false]
          exact ⟨by simp, hlocked⟩

end Sweep

end CellModem
