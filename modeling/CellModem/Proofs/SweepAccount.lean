import CellModem.Proofs.Boundary

/-!
What a sweep has to show for its time with the lock, and what becomes of it in the hands of the
listener: every report among the complete lines is passed on.
-/

namespace CellModem

open Line Station

namespace Sweep

/-- What the lines of a leftover announce was passed on, and nothing else so far. -/
structure Withholds (tally : Tally) : Prop where
  inOrder : tally.InOrder
  sifts : tally.Sifts
  response : tally.Lacks .response
  published_eq : tally.published .sweep = []

/-- Something came in. -/
structure Sweeping (buffer : Buffer) (tally : Tally) : Prop extends Withholds tally where
  entered_eq : tally.entered = .aligned
  left_eq : tally.left = .aligned
  scanned_eq : buffer.scanned = 0
  pending_eq : buffer.pending = tally.taken .sweep
  pending_ne_nil : buffer.pending ≠ []

/-- What a sweep has to show at each stage. -/
def Shows : Stage → Tally → Prop
  | .queued, _ => False
  | .realigning realignment, tally => tally.Realigning realignment.purge
  | .reading, tally => tally.Ready ∧ tally.entered = .aligned
  | .completing buffer _, tally => Sweeping buffer tally

/-- What its result tells of the stream. It reads only from an aligned one, and cuts a line if the
last one that it read was not finished. -/
def Outcome (tally : Tally) : Result → Prop
  | .ok (some _) => tally.entered = .aligned ∧ tally.left ≠ .awaitingVerdict ∧
      (tally.left = .midLine ↔
        tally.taken .sweep ≠ [] ∧ (tally.taken .sweep).getLast? ≠ some lineFeed)
  | .ok none | .error _ => tally.taken .sweep = [] ∧
      tally.left = if tally.realigned then .aligned else tally.entered

/-- What it has to show at its end. -/
structure Closes (result : Result) (tally : Tally) : Prop extends Withholds tally where
  outcome : Outcome tally result
  buffer_eq : ∀ buffer, result = .ok (some buffer) →
    buffer.scanned = 0 ∧ buffer.pending = tally.taken .sweep

theorem Withholds.read {tally : Tally} (h : Withholds tally) (bytes : Octets) :
    Withholds (tally.read .sweep bytes) where
  inOrder := by
    obtain ⟨hreceived, hsignals⟩ := h.inOrder
    refine ⟨?_, hsignals⟩
    simp [Tally.read, hreceived]
  sifts := by simpa [Tally.Sifts, Tally.read] using h.sifts
  response := by simpa [Tally.Lacks, Tally.read] using h.response
  published_eq := h.published_eq

theorem Withholds.align {tally : Tally} (h : Withholds tally) (alignment : Alignment) :
    Withholds (tally.align alignment) :=
  ⟨h.inOrder, h.sifts, h.response, h.published_eq⟩

theorem withholds_of_early {tally : Tally} (h : tally.Early) (hsifts : tally.Sifts) :
    Withholds tally :=
  ⟨h.inOrder, hsifts, h.response, h.sweep.2⟩

/-- At no stage is anything passed on but what a leftover announces. -/
theorem withholds_of_shows {stage : Stage} {tally : Tally} (h : Shows stage tally) :
    Withholds tally := by
  cases stage with
  | queued => exact h.elim
  | realigning realignment =>
    have hearly := Tally.Realigning.toEarly h
    exact withholds_of_early hearly (Tally.Realigning.sifts h)
  | reading => exact withholds_of_early h.1.toEarly h.1.sifts
  | completing buffer timer => exact Sweeping.toWithholds h

/-- A sweep that reads nothing leaves the stream as it found it, or aligned. -/
theorem closes_of_nothing {result : Result} {tally : Tally}
    (hresult : ∀ buffer, result ≠ .ok (some buffer)) (h : tally.Early) (hsifts : tally.Sifts)
    (hleft : tally.left = if tally.realigned then .aligned else tally.entered) :
    Closes result tally where
  toWithholds := withholds_of_early h hsifts
  outcome := by
    match result with
    | .ok none => exact ⟨h.sweep.1, hleft⟩
    | .ok (some buffer) => exact absurd rfl (hresult buffer)
    | .error cause => exact ⟨h.sweep.1, hleft⟩
  buffer_eq buffer hbuffer := absurd hbuffer (hresult buffer)

theorem closes_of_end {tally : Tally} (h : tally.Ready) (hentered : tally.entered = .aligned) :
    Closes (.ok (some (.empty Limits.response))) tally where
  toWithholds := withholds_of_early h.toEarly h.sifts
  outcome := by simp [Outcome, hentered, h.left_eq, h.sweep.1]
  buffer_eq := by
    rintro _ ⟨⟩
    exact ⟨rfl, h.sweep.1.symm⟩

namespace Sweeping

variable {buffer : Buffer} {tally : Tally}

theorem closes_of_line (h : Sweeping buffer tally)
    (hlast : buffer.pending.getLast? = some lineFeed) : Closes (.ok (some buffer)) tally where
  toWithholds := h.toWithholds
  outcome := by
    rw [h.pending_eq] at hlast
    simp [Outcome, h.entered_eq, h.left_eq, hlast]
  buffer_eq := by
    rintro _ ⟨⟩
    exact ⟨h.scanned_eq, h.pending_eq⟩

theorem closes_of_cut (h : Sweeping buffer tally)
    (hlast : buffer.pending.getLast? ≠ some lineFeed) :
    Closes (.ok (some buffer)) (tally.align .midLine) where
  toWithholds := h.toWithholds.align .midLine
  outcome := by
    have hsome := h.pending_ne_nil
    rw [h.pending_eq] at hsome hlast
    refine ⟨h.entered_eq, nofun, ?_⟩
    simpa [Tally.align] using ⟨hsome, hlast⟩
  buffer_eq := by
    rintro _ ⟨⟩
    exact ⟨h.scanned_eq, h.pending_eq⟩

theorem fill (h : Sweeping buffer tally) (chunk : Chunk buffer.room) :
    Sweeping (buffer.fill chunk) (tally.read .sweep chunk.val) where
  toWithholds := h.toWithholds.read chunk.val
  entered_eq := h.entered_eq
  left_eq := h.left_eq
  scanned_eq := h.scanned_eq
  pending_eq := by
    rw [Buffer.pending_fill, h.pending_eq]
    simp [Tally.read]
  pending_ne_nil := by
    rw [Buffer.pending_fill]
    simp [h.pending_ne_nil]

end Sweeping

theorem sweeping_of_ready {tally : Tally} (h : tally.Ready) (hentered : tally.entered = .aligned)
    {chunk : Chunk (Buffer.empty Limits.response).room} (hchunk : chunk.val ≠ []) :
    Sweeping ((Buffer.empty Limits.response).fill chunk) (tally.read .sweep chunk.val) where
  toWithholds := (withholds_of_early h.toEarly h.sifts).read chunk.val
  entered_eq := hentered
  left_eq := h.left_eq
  scanned_eq := rfl
  pending_eq := by
    rw [Buffer.pending_fill, Buffer.pending_empty]
    simp [Tally.read, h.sweep.1]
  pending_ne_nil := by
    rw [Buffer.pending_fill]
    simp [hchunk]

variable {τ : Type} {past : List Event} {entered : Alignment}

abbrev Tells (past : List Event) (entered : Alignment) (stage : Stage)
    (station : Station τ) : Prop :=
  Recounts past entered (Shows stage) station

abbrev Told (past : List Event) (entered : Alignment) (result : Result)
    (station : Station τ) : Prop :=
  Recounts past entered (Closes result) station

section Steps

variable {station : Station τ} {tally : Tally} {buffer : Buffer}
  (hentered : tally.entered = entered)
  (hamounts : Amounts past tally station)

include hentered hamounts

theorem told_finish {result : Result} (h : Closes result tally) :
    Course.Meets (Tells past entered) (Told past entered) (finish station result) :=
  ⟨tally, hentered, hamounts.unlock, h⟩

theorem told_cutShort (h : Sweeping buffer tally)
    (hlast : buffer.pending.getLast? ≠ some lineFeed) :
    Course.Meets (Tells past entered) (Told past entered) (cutShort station buffer) :=
  ⟨tally.align .midLine, hentered, (hamounts.align .midLine).unlock, h.closes_of_cut hlast⟩

variable [Transport τ] {timeout : Millis}

omit hentered hamounts in
theorem tells_realigning {realignment : Realignment}
    (h : Realignment.Tells past entered realignment station) :
    Course.Meets (Tells past entered) (Told past entered)
      (step timeout (.realigning realignment) station) := by
  have htells := realignment.step_tells station h
  simp only [step]
  cases hrun : realignment.step station with
  | mk progress next =>
    rw [hrun] at htells
    cases progress with
    | moved later => exact htells
    | waiting later => exact htells
    | finished result =>
      obtain ⟨tally, hentered, hamounts, hready, hrealigned, -⟩ := htells
      refine told_finish hentered hamounts ?_
      refine closes_of_nothing (fun buffer hbuffer => by cases hbuffer) hready.toEarly
        hready.sifts ?_
      rw [hready.left_eq, hrealigned, if_pos rfl]

theorem tells_reading (hready : tally.Ready) (haligned : tally.entered = .aligned) :
    Course.Meets (Tells past entered) (Told past entered) (step timeout .reading station) := by
  have hread := hamounts.read .sweep (Buffer.empty Limits.response).room fun _ => hready.left_eq
  simp only [step]
  cases hrun : station.read .sweep (Buffer.empty Limits.response).room with
  | mk attempt next =>
    rw [hrun] at hread
    cases attempt with
    | waiting => exact ⟨tally, hentered, hread, hready, haligned⟩
    | failed =>
      refine told_finish hentered hread ?_
      refine closes_of_nothing (fun buffer hbuffer => by cases hbuffer) hready.toEarly
        hready.sifts ?_
      rw [hready.left_eq, haligned, ite_self]
    | done chunk =>
      by_cases hend : chunk.val = []
      · rw [tally.noteRead_of_nil .sweep hend] at hread
        simp only [hend, if_true]
        exact told_finish hentered hread (closes_of_end hready haligned)
      · simp only [hend, if_false]
        exact ⟨tally.read .sweep chunk.val, hentered, hread,
          sweeping_of_ready hready haligned hend⟩

theorem tells_completing {timer : Timer} (h : Sweeping buffer tally) :
    Course.Meets (Tells past entered) (Told past entered)
      (step timeout (.completing buffer timer) station) := by
  unfold step
  by_cases hlast : buffer.pending.getLast? = some lineFeed
  · simp only [hlast, if_true]
    exact told_finish hentered hamounts (h.closes_of_line hlast)
  · by_cases hfull : buffer.room = 0
    · simp only [hlast, hfull, if_true, if_false]
      exact told_cutShort hentered hamounts h hlast
    · simp only [hlast, hfull, if_false]
      have hread := hamounts.read .sweep buffer.room fun _ => h.left_eq
      cases hrun : station.read .sweep buffer.room with
      | mk attempt next =>
        rw [hrun] at hread
        cases attempt with
        | waiting =>
          cases hask : timer.ask next.now with
          | some later =>
            simp only [hask]
            exact ⟨tally, hentered, hread, h⟩
          | none =>
            simp only [hask]
            exact told_cutShort hentered hread h hlast
        | failed => exact told_cutShort hentered hread h hlast
        | done chunk =>
          by_cases hend : chunk.val = []
          · rw [tally.noteRead_of_nil .sweep hend] at hread
            simp only [hend, if_true]
            exact told_cutShort hentered hread h hlast
          · simp only [hend, if_false]
            exact ⟨tally.read .sweep chunk.val, hentered, hread, h.fill chunk⟩

end Steps

variable [Transport τ]

theorem step_tells (timeout : Millis) (stage : Stage) (station : Station τ)
    (h : Tells past entered stage station) :
    Course.Meets (Tells past entered) (Told past entered) (step timeout stage station) := by
  obtain ⟨tally, hentered, hamounts, hshows⟩ := h
  cases stage with
  | queued => exact hshows.elim
  | realigning realignment => exact tells_realigning ⟨tally, hentered, hamounts, hshows⟩
  | reading => exact tells_reading hentered hamounts hshows.1 hshows.2
  | completing buffer timer => exact tells_completing hentered hamounts hshows

/-- A sweep that obtains the lock begins an account. -/
theorem tells_queued {timeout : Millis} {station : Station τ} (hfree : station.locked = false) :
    Course.Meets (Tells (.locked :: station.happened) station.alignment)
      (Told (.locked :: station.happened) station.alignment) (step timeout .queued station) := by
  have hprobed : Amounts (.locked :: station.happened) (.start station.alignment)
      station.lock.probe.2 :=
    (amounts_refl station.lock).probe
  have hnothing : ∀ result : Result, (∀ buffer, result ≠ .ok (some buffer)) →
      Closes result (.start station.alignment) := by
    intro result hresult
    exact closes_of_nothing hresult (Tally.early_start _) (Tally.sifts_start _) rfl
  have hsame : station.lock.probe.2.alignment = station.alignment := rfl
  simp only [step, hfree]
  cases hrun : station.lock.probe with
  | mk ready next =>
    rw [hrun] at hprobed hsame
    change next.alignment = station.alignment at hsame
    cases ready with
    | none =>
      exact told_finish rfl hprobed (hnothing _ fun buffer hbuffer => by cases hbuffer)
    | some pending =>
      cases pending with
      | false =>
        exact told_finish rfl hprobed (hnothing _ fun buffer hbuffer => by cases hbuffer)
      | true =>
        by_cases haligned : next.alignment = .aligned
        · simp only [haligned, if_true]
          rw [hsame] at haligned
          exact ⟨_, rfl, hprobed, Tally.ready_start haligned, haligned⟩
        · simp only [haligned, if_false]
          refine ⟨_, rfl, hprobed, ?_⟩
          change (Tally.start station.alignment).Realigning
            { alignment := next.alignment, buffer := .empty Limits.response }
          rw [hsame] at haligned ⊢
          exact Tally.realigning_start haligned

end Sweep

namespace Listener

/-- What a listener has to show at the end of a sweep. -/
structure Closes (result : Sweep.Result) (tally : Tally) : Prop where
  inOrder : tally.InOrder
  sifts : tally.Sifts
  response : tally.Lacks .response
  published_eq : tally.published .sweep = announced (split (tally.taken .sweep)).1
  outcome : Sweep.Outcome tally result

variable {τ : Type} {past : List Event} {entered : Alignment} {tally : Tally}

theorem closes_of_silence {result : Sweep.Result} (h : Sweep.Closes result tally)
    (hnothing : tally.taken .sweep = []) : Closes result tally where
  inOrder := h.inOrder
  sifts := h.sifts
  response := h.response
  published_eq := by
    rw [h.published_eq, hnothing]
    rfl
  outcome := h.outcome

theorem closes_of_dispatch {buffer : Buffer} (h : Sweep.Closes (.ok (some buffer)) tally) :
    Closes (.ok (some buffer)) (tally.publish .sweep (Dispatch.ofBuffer buffer).signals) where
  inOrder := by
    obtain ⟨hreceived, hsignals⟩ := h.inOrder
    refine ⟨hreceived, ?_⟩
    simp [Tally.publish, hsignals]
  sifts := by simpa [Tally.Sifts, Tally.publish] using h.sifts
  response := by simpa [Tally.Lacks, Tally.publish] using h.response
  published_eq := by
    rw [dispatch_signals, (h.buffer_eq buffer rfl).2]
    simp [Tally.publish, h.published_eq]
  outcome := h.outcome

/-- Handing on what a sweep brought in completes its account. -/
theorem swept_recounts (settings : Settings) (result : Sweep.Result) (station : Station τ)
    (h : Sweep.Told past entered result station) :
    Recounts past entered (Closes result) (swept settings result station).2 := by
  obtain ⟨tally, hentered, hamounts, hcloses⟩ := h
  match result with
  | .error cause =>
    exact ⟨tally, hentered, hamounts.same rfl rfl, closes_of_silence hcloses hcloses.outcome.1⟩
  | .ok none =>
    exact ⟨tally, hentered, hamounts.same rfl rfl, closes_of_silence hcloses hcloses.outcome.1⟩
  | .ok (some buffer) =>
    by_cases hempty : buffer.filled = 0
    · have hnothing : tally.taken .sweep = [] := by
        rw [← (hcloses.buffer_eq buffer rfl).2, ← List.length_eq_zero_iff, Buffer.length_pending,
          hempty, Nat.zero_sub]
      simp only [swept, hempty, if_true]
      exact ⟨tally, hentered, hamounts.same rfl rfl, closes_of_silence hcloses hnothing⟩
    · have hlistening : Amounts past tally (station.setListener .dispatching) :=
        hamounts.same rfl rfl
      have hpublished := hlistening.publishAll .sweep (Dispatch.ofBuffer buffer).signals
      simp only [swept, hempty, if_false]
      refine ⟨tally.publish .sweep (Dispatch.ofBuffer buffer).signals, hentered, ?_,
        closes_of_dispatch hcloses⟩
      exact hpublished.same rfl rfl

end Listener

end CellModem
