import CellModem.Exchange
import CellModem.Proofs.Journal
import CellModem.Sweep

/-!
What a step sees of a station: the transport, the clock, the lock and the alignment of the stream.
Everything else it only adds to, so a step on a station with a past is the same step on a bare
station, laid over that past.
-/

namespace CellModem

def Event.published? : Event → Option Signal
  | .published _ signal => some signal
  | _ => none

namespace Station

variable {τ : Type}

/-- The signals that were published, in order. -/
def published (station : Station τ) : List Signal :=
  station.journal.reverse.filterMap Event.published?

theorem published_record {station : Station τ} {event : Event} (h : event.published? = none) :
    (station.record event).published = station.published := by
  simp [published, record, h]

theorem published_publishAll (station : Station τ) (purpose : Purpose) (signals : List Signal) :
    (station.publishAll purpose signals).published = station.published ++ signals := by
  have hsignals : (signals.map (Event.published purpose)).filterMap Event.published? = signals := by
    rw [List.filterMap_map]
    exact List.filterMap_some
  rw [publishAll_eq, published, List.reverse_append, List.reverse_reverse, List.filterMap_append,
    hsignals]
  rfl

theorem published_noteRead {room : Nat} (station : Station τ) (purpose : Purpose)
    (attempt : Attempt (Chunk room)) :
    (station.noteRead purpose attempt).published = station.published := by
  cases attempt with
  | done chunk => exact published_record rfl
  | failed => exact published_record rfl
  | waiting => rfl

theorem published_read [Transport τ] (station : Station τ) (purpose : Purpose) (room : Nat) :
    (station.read purpose room).2.published = station.published :=
  published_noteRead _ purpose _

/-- What a step sees of a station, without a past. -/
def bare (station : Station τ) : Station τ where
  transport := station.transport
  now := station.now
  locked := station.locked
  alignment := station.alignment

/-- What has happened to `recent` happened to `station`. -/
def overlay (station recent : Station τ) : Station τ :=
  { station with
    transport := recent.transport
    now := recent.now
    locked := recent.locked
    alignment := recent.alignment
    board := recent.published.foldl Bulletin.post station.board
    journal := recent.journal ++ station.journal }

theorem overlay_bare (station : Station τ) : station.overlay station.bare = station :=
  rfl

theorem overlay_record (station recent : Station τ) {event : Event}
    (h : event.published? = none) :
    (station.overlay recent).record event = station.overlay (recent.record event) := by
  simp [overlay, record, published, h]

theorem overlay_lock (station recent : Station τ) :
    (station.overlay recent).lock = station.overlay recent.lock :=
  overlay_record station { recent with locked := true } rfl

theorem overlay_unlock (station recent : Station τ) :
    (station.overlay recent).unlock = station.overlay recent.unlock :=
  overlay_record station { recent with locked := false } rfl

theorem overlay_align (station recent : Station τ) (alignment : Alignment) :
    (station.overlay recent).align alignment = station.overlay (recent.align alignment) :=
  overlay_record station { recent with alignment } rfl

theorem overlay_publish (station recent : Station τ) (purpose : Purpose) (signal : Signal) :
    (station.overlay recent).publish purpose signal =
      station.overlay (recent.publish purpose signal) := by
  simp [overlay, publish, record, published, Event.published?]

theorem overlay_publishAll (station recent : Station τ) (purpose : Purpose)
    (signals : List Signal) :
    (station.overlay recent).publishAll purpose signals =
      station.overlay (recent.publishAll purpose signals) := by
  induction signals generalizing recent with
  | nil => rfl
  | cons signal signals ih =>
    simp only [publishAll, List.foldl_cons, overlay_publish] at ih ⊢
    exact ih (recent.publish purpose signal)

theorem overlay_noteRead {room : Nat} (station recent : Station τ) (purpose : Purpose)
    (attempt : Attempt (Chunk room)) :
    (station.overlay recent).noteRead purpose attempt =
      station.overlay (recent.noteRead purpose attempt) := by
  cases attempt with
  | done chunk => exact overlay_record station recent rfl
  | failed => exact overlay_record station recent rfl
  | waiting => rfl

theorem overlay_noteWrite (station recent : Station τ) (request : Octets)
    (attempt : Attempt Nat) :
    (station.overlay recent).noteWrite request attempt =
      station.overlay (recent.noteWrite request attempt) := by
  cases attempt with
  | done taken => exact overlay_record station recent rfl
  | failed => exact overlay_record station recent rfl
  | waiting => rfl

theorem overlay_noteFlush (station recent : Station τ) (attempt : Attempt Unit) :
    (station.overlay recent).noteFlush attempt = station.overlay (recent.noteFlush attempt) := by
  cases attempt with
  | done result => exact overlay_record station recent rfl
  | failed => exact overlay_record station recent rfl
  | waiting => rfl

section Calls

variable [Transport τ]

theorem overlay_probe (station recent : Station τ) :
    (station.overlay recent).probe = recent.probe.map id station.overlay := by
  let next := { recent with transport := (Transport.ready recent.now recent.transport).2 }
  exact Prod.ext rfl (overlay_record station next rfl)

theorem overlay_read (station recent : Station τ) (purpose : Purpose) (room : Nat) :
    (station.overlay recent).read purpose room =
      (recent.read purpose room).map id station.overlay := by
  let next := { recent with transport := (Transport.read recent.now room recent.transport).2 }
  exact Prod.ext rfl (overlay_noteRead station next purpose _)

theorem overlay_write (station recent : Station τ) (request : Octets) :
    (station.overlay recent).write request = (recent.write request).map id station.overlay := by
  let next := { recent with transport := (Transport.write recent.now request recent.transport).2 }
  have hoffered : (station.overlay next).record (.offered request) =
      station.overlay (next.record (.offered request)) :=
    overlay_record station next rfl
  refine Prod.ext rfl ((congrArg (fun later => noteWrite later request _) hoffered).trans ?_)
  exact overlay_noteWrite station _ request _

theorem overlay_awaitWrite (station recent : Station τ) (request : Octets) :
    (station.overlay recent).awaitWrite request =
      (recent.awaitWrite request).map id station.overlay := by
  let next := { recent with transport := (Transport.awaitWrite recent.now recent.transport).2 }
  exact Prod.ext rfl (overlay_noteWrite station next request _)

theorem overlay_flush (station recent : Station τ) :
    (station.overlay recent).flush = recent.flush.map id station.overlay := by
  let next := { recent with transport := (Transport.flush recent.now recent.transport).2 }
  exact Prod.ext rfl (overlay_noteFlush station next _)

theorem overlay_awaitFlush (station recent : Station τ) :
    (station.overlay recent).awaitFlush = recent.awaitFlush.map id station.overlay := by
  let next := { recent with transport := (Transport.awaitFlush recent.now recent.transport).2 }
  exact Prod.ext rfl (overlay_noteFlush station next _)

end Calls

end Station

namespace Realignment

variable {τ : Type} [Transport τ]

theorem step_overlay (realignment : Realignment) (station recent : Station τ) :
    realignment.step (station.overlay recent) =
      (realignment.step recent).map id station.overlay := by
  obtain ⟨purge, timer⟩ := realignment
  unfold step
  by_cases hdone : purge.isDone
  · simp only [hdone, if_true, Station.overlay_align, Prod.map_apply, id]
  · simp only [hdone, Bool.false_eq_true, if_false, Station.overlay_read]
    cases hrun : recent.read .realignment purge.buffer.room with
    | mk attempt next =>
      cases attempt with
      | waiting =>
        have hnow : (station.overlay next).now = next.now := rfl
        cases hask : timer.ask next.now with
        | some later => simp [hnow, hask]
        | none => simp [hnow, hask, Station.overlay_align]
      | failed => simp [Station.overlay_align]
      | done chunk =>
        by_cases hend : chunk.val = []
        · simp [hend, Station.overlay_align]
        · simp [hend, Station.overlay_publishAll]

end Realignment

namespace Exchange

variable {τ : Type}

theorem finish_overlay (station recent : Station τ) (result : Result) :
    finish (station.overlay recent) result = (finish recent result).map id station.overlay := by
  simp only [finish, Station.overlay_unlock, Prod.map_apply, id]

theorem wait_overlay (station recent : Station τ) (timer : Timer) (stage : Timer → Stage) :
    wait (station.overlay recent) timer stage =
      (wait recent timer stage).map id station.overlay := by
  have hnow : (station.overlay recent).now = recent.now := rfl
  unfold wait
  rw [hnow]
  cases timer.ask recent.now with
  | some later => rfl
  | none => simp only [abandon, Station.overlay_align, finish_overlay]

theorem sent_overlay (station : Station τ) (request : Octets) (timer : Timer)
    (outcome : Attempt Nat × Station τ) :
    sent request timer (outcome.map id station.overlay) =
      (sent request timer outcome).map id station.overlay := by
  obtain ⟨attempt, recent⟩ := outcome
  cases attempt with
  | waiting => exact wait_overlay station recent timer _
  | failed => exact finish_overlay station recent _
  | done taken =>
    by_cases htaken : taken = request.length
    · simp [sent, htaken]
    · simp [sent, htaken, finish_overlay]

theorem flushed_overlay (call : Call) (station : Station τ) (timer : Timer)
    (outcome : Attempt Unit × Station τ) :
    flushed call timer (outcome.map id station.overlay) =
      (flushed call timer outcome).map id station.overlay := by
  obtain ⟨attempt, recent⟩ := outcome
  cases attempt with
  | waiting => exact wait_overlay station recent timer _
  | failed => exact finish_overlay station recent _
  | done result => rfl

theorem received_overlay (station recent : Station τ) (timer : Timer)
    (outcome : Reception.Outcome × List Signal) :
    received timer (station.overlay recent) outcome =
      (received timer recent outcome).map id station.overlay := by
  obtain ⟨outcome, signals⟩ := outcome
  cases outcome with
  | unfinished buffer => simp [received, Station.overlay_publishAll]
  | ended ending =>
    obtain ⟨verdict, payload, cut⟩ := ending
    cases verdict <;> cases cut <;>
      simp [received, Station.overlay_publishAll, Station.overlay_align, finish_overlay]

variable [Transport τ]

/-- A step of an exchange does to a station with a past what it does to a bare one. -/
theorem step_overlay (call : Call) (stage : Stage) (station recent : Station τ) :
    step call stage (station.overlay recent) =
      (step call stage recent).map id station.overlay := by
  cases stage with
  | queued =>
    unfold step
    cases call.request? with
    | none => rfl
    | some request =>
      simp only [Station.overlay_lock]
      by_cases hlocked : recent.locked
      · simp [hlocked, Station.overlay]
      · by_cases haligned : recent.lock.alignment = .aligned
        · simp [hlocked, haligned, Station.overlay, startSending]
        · simp [hlocked, haligned, Station.overlay, Realignment.start]
  | realigning request realignment =>
    simp only [step, Realignment.step_overlay]
    cases hrun : realignment.step recent with
    | mk progress next =>
      cases progress <;> rfl
  | sending request timer begun =>
    cases begun with
    | false => simp only [step, Station.overlay_write, sent_overlay]
    | true => simp only [step, Station.overlay_awaitWrite, sent_overlay]
  | flushing timer begun =>
    cases begun with
    | false => simp only [step, Station.overlay_flush, flushed_overlay]
    | true => simp only [step, Station.overlay_awaitFlush, flushed_overlay]
  | receiving buffer timer =>
    unfold step
    by_cases hfull : buffer.room = 0
    · simp only [hfull, if_true, abandon, Station.overlay_align, finish_overlay]
    · simp only [hfull, if_false, Station.overlay_read]
      cases hrun : recent.read .response buffer.room with
      | mk attempt next =>
        cases attempt with
        | waiting => exact wait_overlay station next timer _
        | failed => exact finish_overlay station next _
        | done chunk =>
          by_cases hend : chunk.val = []
          · simp [hend, finish_overlay]
          · simp [hend, received_overlay]

theorem step_eq_overlay (call : Call) (stage : Stage) (station : Station τ) :
    step call stage station = (step call stage station.bare).map id station.overlay :=
  step_overlay call stage station station.bare

end Exchange

namespace Sweep

variable {τ : Type}

theorem finish_overlay (station recent : Station τ) (result : Result) :
    finish (station.overlay recent) result = (finish recent result).map id station.overlay := by
  simp only [finish, Station.overlay_unlock, Prod.map_apply, id]

variable [Transport τ]

/-- And so does a step of a sweep. -/
theorem step_overlay (timeout : Millis) (stage : Stage) (station recent : Station τ) :
    step timeout stage (station.overlay recent) =
      (step timeout stage recent).map id station.overlay := by
  cases stage with
  | queued =>
    unfold step
    simp only [Station.overlay_lock, Station.overlay_probe]
    by_cases hlocked : recent.locked
    · simp [hlocked, Station.overlay]
    · have hunlocked : ¬ (station.overlay recent).locked = true := hlocked
      simp only [hlocked, hunlocked]
      cases hrun : recent.lock.probe with
      | mk ready next =>
        match ready with
        | none => exact finish_overlay station next _
        | some false => exact finish_overlay station next _
        | some true =>
          by_cases haligned : next.alignment = .aligned
          · simp [haligned, Station.overlay]
          · simp [haligned, Station.overlay, Realignment.start]
  | realigning realignment =>
    simp only [step, Realignment.step_overlay]
    cases hrun : realignment.step recent with
    | mk progress next =>
      cases progress with
      | moved later => rfl
      | waiting later => rfl
      | finished result => exact finish_overlay station next _
  | reading =>
    simp only [step, Station.overlay_read]
    cases hrun : recent.read .sweep (Buffer.empty Limits.response).room with
    | mk attempt next =>
      cases attempt with
      | waiting => rfl
      | failed => exact finish_overlay station next _
      | done chunk =>
        by_cases hend : chunk.val = []
        · simp [hend, finish_overlay]
        · simp [hend, Station.overlay]
  | completing buffer timer =>
    unfold step
    by_cases hended : buffer.pending.getLast? = some Line.lineFeed
    · simp only [hended, if_true, finish_overlay]
    · by_cases hfull : buffer.room = 0
      · simp [hended, hfull, cutShort, Station.overlay_align, finish_overlay]
      · simp only [hended, hfull, if_false, Station.overlay_read]
        cases hrun : recent.read .sweep buffer.room with
        | mk attempt next =>
          cases attempt with
          | waiting =>
            have hnow : (station.overlay next).now = next.now := rfl
            cases hask : timer.ask next.now with
            | some later => simp [hnow, hask]
            | none => simp [hnow, hask, cutShort, Station.overlay_align, finish_overlay]
          | failed => simp [cutShort, Station.overlay_align, finish_overlay]
          | done chunk =>
            by_cases hend : chunk.val = []
            · simp [hend, cutShort, Station.overlay_align, finish_overlay]
            · simp [hend]

theorem step_eq_overlay (timeout : Millis) (stage : Stage) (station : Station τ) :
    step timeout stage station = (step timeout stage station.bare).map id station.overlay :=
  step_overlay timeout stage station station.bare

end Sweep

namespace Course

variable {τ σ α : Type} {step : Course τ σ α}

/-- A whole run does to a station with a past what it does to a bare one. -/
theorem pace_overlay
    (hstep : ∀ state station recent,
      step state (Station.overlay station recent) = (step state recent).map id station.overlay)
    (clock : Nat → Millis) (steps : Nat) (state : σ) (station recent : Station τ) :
    pace step clock steps state (station.overlay recent) =
      (pace step clock steps state recent).map id station.overlay := by
  induction steps generalizing clock state recent with
  | zero => rfl
  | succ steps ih =>
    unfold pace
    rw [hstep]
    cases hrun : step state recent with
    | mk progress next =>
      cases progress with
      | moved later => exact ih clock later next
      | waiting later => exact ih _ later (next.passTo (clock 0))
      | finished result => rfl

/-- Two stations that look the same to a step go through the same run. -/
theorem pace_eq_of_bare_eq
    (hstep : ∀ state station recent,
      step state (Station.overlay station recent) = (step state recent).map id station.overlay)
    (clock : Nat → Millis) (steps : Nat) (state : σ) {first second : Station τ}
    (h : first.bare = second.bare) :
    (pace step clock steps state first).1 = (pace step clock steps state second).1 := by
  have hfirst := pace_overlay hstep clock steps state first first.bare
  have hsecond := pace_overlay hstep clock steps state second second.bare
  rw [Station.overlay_bare] at hfirst hsecond
  rw [hfirst, hsecond, h]
  rfl

end Course

end CellModem
