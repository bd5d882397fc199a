import CellModem.Proofs.Boundary

/-!
What an exchange has to show for its time with the lock. The invariant says for each stage what was
read and passed on, and how the stream stands. At the end it accounts for every signal, and for the
alignment in which the stream is left.
-/

namespace CellModem

open Line Station

namespace Exchange

/-- What the lines of the leftover and of the response announce was passed on, and nothing else. -/
structure Passes (call : Call) (tally : Tally) : Prop where
  inOrder : tally.InOrder
  sifts : tally.Sifts
  sweep : tally.Lacks .sweep
  published_eq : tally.published .response =
    answered (Octets.ofText call.command) (split (tally.taken .response)).1

/-- What a response has come to, as long as there is no end to it. -/
structure Open (call : Call) (tally : Tally) : Prop extends Passes call tally where
  left_eq : tally.left = .aligned
  unended : Unended (Octets.ofText call.command) (tally.taken .response)

/-- The response is coming in. -/
structure Receiving (call : Call) (buffer : Buffer) (tally : Tally) : Prop extends
    Open call tally where
  flushed_eq : tally.flushed = true
  taken : Reception.Taken (Octets.ofText call.command) (tally.taken .response) buffer
  length_eq : buffer.storage.length = call.size

/-- What an exchange has to show at each stage. -/
def Shows (call : Call) : Stage → Tally → Prop
  | .queued, _ => False
  | .realigning _ realignment, tally => tally.Realigning realignment.purge
  | .sending _ _ _, tally | .flushing _ _, tally => tally.Ready
  | .receiving buffer _, tally => Receiving call buffer tally

/-- What it has to show at its end. It has given up within the response if it ran out of time or
of room, and has cut a line if there was one behind the final result. -/
structure Closes (call : Call) (result : Result) (tally : Tally) : Prop extends
    Passes call tally where
  awaiting_iff : tally.left = .awaitingVerdict ↔
    result = .error .timeout ∨ tally.flushed = true ∧
      Unended (Octets.ofText call.command) (tally.taken .response) ∧
      Overflows call (tally.taken .response)
  midLine_iff : tally.left = .midLine ↔
    Cut (Octets.ofText call.command) (tally.taken .response)

theorem Passes.align {call : Call} {tally : Tally} (h : Passes call tally) (alignment : Alignment) :
    Passes call (tally.align alignment) :=
  ⟨h.inOrder, h.sifts, h.sweep, h.published_eq⟩

theorem passes_of_early {call : Call} {tally : Tally} (h : tally.Early) (hsifts : tally.Sifts) :
    Passes call tally where
  inOrder := h.inOrder
  sifts := hsifts
  sweep := h.sweep
  published_eq := by
    rw [h.response.1, h.response.2]
    rfl

theorem open_of_ready {call : Call} {tally : Tally} (h : tally.Ready) : Open call tally :=
  { passes_of_early h.toEarly h.sifts with
    left_eq := h.left_eq
    unended := by
      rw [h.response.1]
      exact unended_nil _ }

/-- At every stage, whatever was announced so far was passed on. -/
theorem passes_of_shows {call : Call} {stage : Stage} {tally : Tally}
    (h : Shows call stage tally) : Passes call tally := by
  cases stage with
  | queued => exact h.elim
  | realigning request realignment =>
    have hearly := Tally.Realigning.toEarly h
    exact passes_of_early hearly (Tally.Realigning.sifts h)
  | sending request timer begun => exact (open_of_ready h).toPasses
  | flushing timer begun => exact (open_of_ready h).toPasses
  | receiving buffer timer => exact Open.toPasses (Receiving.toOpen h)

theorem receiving_of_ready {call : Call} {tally : Tally} (h : tally.Ready) :
    Receiving call (.empty call.size) tally.flush :=
  { open_of_ready h with
    flushed_eq := rfl
    taken := by
      rw [Tally.flush, h.response.1]
      exact Reception.taken_empty _ _
    length_eq := List.length_replicate }

namespace Open

variable {call : Call} {tally : Tally}

theorem timeout (h : Open call tally) :
    Closes call (.error .timeout) (tally.align .awaitingVerdict) :=
  { h with
    awaiting_iff := by simp [Tally.align]
    midLine_iff := by simpa [Tally.align] using h.unended.not_cut }

theorem overflow (h : Open call tally) (hflushed : tally.flushed = true)
    (hfull : Overflows call (tally.taken .response)) :
    Closes call (.error .transport) (tally.align .awaitingVerdict) :=
  { h with
    awaiting_iff := by simpa [Tally.align, hflushed, hfull] using h.unended
    midLine_iff := by simpa [Tally.align] using h.unended.not_cut }

theorem failure (h : Open call tally)
    (hfits : tally.flushed = true → ¬ Overflows call (tally.taken .response)) :
    Closes call (.error .transport) tally :=
  { h with
    awaiting_iff := by
      rw [h.left_eq]
      constructor
      · exact nofun
      · rintro (htimeout | ⟨hflushed, -, hfull⟩)
        · cases htimeout
        · exact absurd hfull (hfits hflushed)
    midLine_iff := by
      rw [h.left_eq]
      exact ⟨nofun, fun hcut => absurd hcut h.unended.not_cut⟩ }

end Open

namespace Receiving

variable {call : Call} {buffer : Buffer} {tally : Tally} {chunk : Chunk buffer.room}
  {signals : List Signal}

/-- One more read passes on what it brings in. -/
theorem passes_absorb (h : Receiving call buffer tally) {outcome : Reception.Outcome}
    (habsorb : Reception.absorb (Octets.ofText call.command) buffer chunk = (outcome, signals)) :
    Passes call ((tally.read .response chunk.val).publish .response signals) where
  inOrder := by
    obtain ⟨hreceived, hsignals⟩ := h.inOrder
    constructor
    · simp [Tally.read, Tally.publish, hreceived, h.sweep.1]
    · simp [Tally.read, Tally.publish, hsignals, h.sweep.2]
  sifts := by simpa [Tally.Sifts, Tally.read, Tally.publish] using h.sifts
  sweep := by simpa [Tally.Lacks, Tally.read, Tally.publish] using h.sweep
  published_eq := by
    have hanswered := Reception.answered_of_absorb h.taken habsorb
    rw [← h.published_eq] at hanswered
    simp [Tally.read, Tally.publish, hanswered]

theorem absorb (h : Receiving call buffer tally) {next : Buffer}
    (habsorb : Reception.absorb (Octets.ofText call.command) buffer chunk =
      (.unfinished next, signals)) :
    Receiving call next ((tally.read .response chunk.val).publish .response signals) := by
  obtain ⟨htaken, hlength⟩ := Reception.taken_of_absorb h.taken habsorb
  exact
    { h.passes_absorb habsorb with
      left_eq := h.left_eq
      unended := by simpa [Tally.read, Tally.publish] using htaken.unended
      flushed_eq := h.flushed_eq
      taken := by simpa [Tally.read, Tally.publish] using htaken
      length_eq := hlength.trans h.length_eq }

theorem conclude (h : Receiving call buffer tally) {ending : Reception.Ending}
    (habsorb : Reception.absorb (Octets.ofText call.command) buffer chunk =
      (.ended ending, signals)) :
    Closes call (conclusion ending.verdict ending.payload)
      (if ending.cut then
        ((tally.read .response chunk.val).publish .response signals).align .midLine
      else (tally.read .response chunk.val).publish .response signals) := by
  obtain ⟨lines, hconcludes, -, hcut⟩ := Reception.concludes_of_absorb h.taken habsorb
  have hpasses := h.passes_absorb habsorb
  have hresult : conclusion ending.verdict ending.payload ≠ .error .timeout := by
    cases ending.verdict <;> exact nofun
  have hended : ¬ Unended (Octets.ofText call.command) (tally.taken .response ++ chunk.val) :=
    hconcludes.not_unended
  cases hcase : ending.cut with
  | true =>
    have hsome := hcut.mp hcase
    exact
      { hpasses.align .midLine with
        awaiting_iff := by simp [Tally.read, Tally.publish, Tally.align, hresult, hended]
        midLine_iff := by simpa [Tally.read, Tally.publish, Tally.align] using hsome }
  | false =>
    have hnone : ¬ Cut (Octets.ofText call.command) (tally.taken .response ++ chunk.val) := by
      rw [← hcut, hcase]
      exact Bool.noConfusion
    exact
      { hpasses with
        awaiting_iff := by simp [Tally.read, Tally.publish, hresult, hended, h.left_eq]
        midLine_iff := by simpa [Tally.read, Tally.publish, h.left_eq] using hnone }

end Receiving

variable {τ : Type} {past : List Event} {entered : Alignment} {call : Call}

/-- This was read and passed on so far. -/
abbrev Tells (past : List Event) (entered : Alignment) (call : Call) (stage : Stage)
    (station : Station τ) : Prop :=
  Recounts past entered (Shows call stage) station

/-- And this is the account of it. -/
abbrev Told (past : List Event) (entered : Alignment) (call : Call) (result : Result)
    (station : Station τ) : Prop :=
  Recounts past entered (Closes call result) station

section Steps

variable {station : Station τ} {tally : Tally} (hentered : tally.entered = entered)

include hentered

theorem told_finish {result : Result} (hamounts : Amounts past tally station)
    (h : Closes call result tally) :
    Course.Meets (Tells past entered call) (Told past entered call) (finish station result) :=
  ⟨tally, hentered, hamounts.unlock, h⟩

theorem told_abandon {cause : Error} (hamounts : Amounts past tally station)
    (h : Closes call (.error cause) (tally.align .awaitingVerdict)) :
    Course.Meets (Tells past entered call) (Told past entered call) (abandon station cause) :=
  ⟨tally.align .awaitingVerdict, hentered, (hamounts.align .awaitingVerdict).unlock, h⟩

theorem tells_wait (hamounts : Amounts past tally station) (hopen : Open call tally)
    (timer : Timer) {stage : Timer → Stage} (hstage : ∀ timer, Shows call (stage timer) tally) :
    Course.Meets (Tells past entered call) (Told past entered call)
      (wait station timer stage) := by
  unfold wait
  cases timer.ask station.now with
  | some later => exact ⟨tally, hentered, hamounts, hstage later⟩
  | none => exact told_abandon hentered hamounts hopen.timeout

/-- As long as nothing was flushed, a failing transport leaves the stream as it is. -/
theorem told_failed (hamounts : Amounts past tally station) (hready : tally.Ready) :
    Course.Meets (Tells past entered call) (Told past entered call)
      (finish station (.error .transport)) := by
  refine told_finish hentered hamounts ((open_of_ready hready).failure ?_)
  rw [hready.flushed_eq]
  exact Bool.noConfusion

theorem tells_sent {request : Octets} {timer : Timer} {outcome : Attempt Nat × Station τ}
    (hamounts : Amounts past tally outcome.2) (hready : tally.Ready) :
    Course.Meets (Tells past entered call) (Told past entered call)
      (sent request timer outcome) := by
  obtain ⟨attempt, station⟩ := outcome
  cases attempt with
  | waiting => exact tells_wait hentered hamounts (open_of_ready hready) timer fun _ => hready
  | failed => exact told_failed hentered hamounts hready
  | done taken =>
    by_cases htaken : taken = request.length
    · simp only [sent, htaken, if_true]
      exact ⟨tally, hentered, hamounts, hready⟩
    · simp only [sent, htaken, if_false]
      exact told_failed hentered hamounts hready

theorem tells_flushed {timer : Timer} {outcome : Attempt Unit × Station τ}
    (hamounts : Amounts past (tally.noteFlush outcome.1) outcome.2) (hready : tally.Ready) :
    Course.Meets (Tells past entered call) (Told past entered call)
      (flushed call timer outcome) := by
  obtain ⟨attempt, station⟩ := outcome
  cases attempt with
  | waiting => exact tells_wait hentered hamounts (open_of_ready hready) timer fun _ => hready
  | failed => exact told_failed hentered hamounts hready
  | done result => exact ⟨tally.flush, hentered, hamounts, receiving_of_ready hready⟩

theorem tells_received {buffer : Buffer} {timer : Timer} {chunk : Chunk buffer.room}
    (hamounts : Amounts past (tally.read .response chunk.val) station)
    (hreceiving : Receiving call buffer tally) :
    Course.Meets (Tells past entered call) (Told past entered call)
      (received timer station
        (Reception.absorb (Octets.ofText call.command) buffer chunk)) := by
  cases habsorb : Reception.absorb (Octets.ofText call.command) buffer chunk with
  | mk outcome signals =>
    let next : Tally := (tally.read .response chunk.val).publish .response signals
    have hpublished : Amounts past next (station.publishAll .response signals) :=
      hamounts.publishAll .response signals
    cases outcome with
    | unfinished rest => exact ⟨next, hentered, hpublished, hreceiving.absorb habsorb⟩
    | ended ending =>
      have hcloses := hreceiving.conclude habsorb
      rw [received_ended]
      cases hcut : ending.cut with
      | true =>
        rw [hcut] at hcloses
        exact ⟨next.align .midLine, hentered, (hpublished.align .midLine).unlock, hcloses⟩
      | false =>
        rw [hcut] at hcloses
        exact ⟨next, hentered, hpublished.unlock, hcloses⟩

variable [Transport τ]

omit hentered in
theorem tells_realigning {request : Octets} {realignment : Realignment}
    (h : Realignment.Tells past entered realignment station) :
    Course.Meets (Tells past entered call) (Told past entered call)
      (step call (.realigning request realignment) station) := by
  have htells := realignment.step_tells station h
  simp only [step]
  cases hrun : realignment.step station with
  | mk progress next =>
    rw [hrun] at htells
    cases progress with
    | moved later => exact htells
    | waiting later => exact htells
    | finished result =>
      obtain ⟨tally, hentered, hamounts, hready, -⟩ := htells
      exact ⟨tally, hentered, hamounts, hready⟩

theorem tells_receiving {buffer : Buffer} {timer : Timer} (hamounts : Amounts past tally station)
    (h : Receiving call buffer tally) :
    Course.Meets (Tells past entered call) (Told past entered call)
      (step call (.receiving buffer timer) station) := by
  have hroom := h.taken.room_add
  rw [h.length_eq] at hroom
  unfold step
  by_cases hfull : buffer.room = 0
  · have hoverflows : Overflows call (tally.taken .response) := by
      unfold Overflows
      omega
    simp only [hfull, if_true]
    exact told_abandon hentered hamounts (h.overflow h.flushed_eq hoverflows)
  · have hfits : tally.flushed = true → ¬ Overflows call (tally.taken .response) := by
      intro _
      unfold Overflows
      omega
    simp only [hfull, if_false]
    have hread := hamounts.read .response buffer.room fun _ => h.left_eq
    cases hrun : station.read .response buffer.room with
    | mk attempt next =>
      rw [hrun] at hread
      cases attempt with
      | waiting => exact tells_wait hentered hread h.toOpen timer fun _ => h
      | failed => exact told_finish hentered hread (h.failure hfits)
      | done chunk =>
        by_cases hend : chunk.val = []
        · rw [tally.noteRead_of_nil .response hend] at hread
          simp only [hend, if_true]
          exact told_finish hentered hread (h.failure hfits)
        · simp only [hend, if_false]
          exact tells_received hentered hread h

end Steps

variable [Transport τ]

theorem step_tells (stage : Stage) (station : Station τ)
    (h : Tells past entered call stage station) :
    Course.Meets (Tells past entered call) (Told past entered call)
      (step call stage station) := by
  obtain ⟨tally, hentered, hamounts, hshows⟩ := h
  cases stage with
  | queued => exact hshows.elim
  | realigning request realignment =>
    exact tells_realigning ⟨tally, hentered, hamounts, hshows⟩
  | sending request timer begun =>
    cases begun with
    | false => exact tells_sent hentered (hamounts.write request hshows.left_eq) hshows
    | true => exact tells_sent hentered (hamounts.awaitWrite request) hshows
  | flushing timer begun =>
    cases begun with
    | false => exact tells_flushed hentered hamounts.flush hshows
    | true => exact tells_flushed hentered hamounts.awaitFlush hshows
  | receiving buffer timer => exact tells_receiving hentered hamounts hshows

/-- An exchange that obtains the lock begins an account. -/
theorem tells_queued {station : Station τ} (hsendable : call.request?.isSome = true)
    (hfree : station.locked = false) :
    Course.Meets (Tells (.locked :: station.happened) station.alignment call)
      (Told (.locked :: station.happened) station.alignment call)
      (step call .queued station) := by
  obtain ⟨request, hrequest⟩ := Option.isSome_iff_exists.mp hsendable
  have hlocked : Amounts (.locked :: station.happened) (.start station.alignment) station.lock :=
    amounts_refl station.lock
  unfold step
  by_cases haligned : station.lock.alignment = .aligned
  · simp only [hrequest, hfree, haligned, if_true]
    exact ⟨_, rfl, hlocked, Tally.ready_start haligned⟩
  · simp only [hrequest, hfree, haligned, if_false]
    exact ⟨_, rfl, hlocked, Tally.realigning_start haligned⟩

end Exchange

end CellModem
