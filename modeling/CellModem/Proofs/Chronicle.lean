import Mathlib.Data.List.Forall2
import CellModem.Proofs.ExchangeAccount
import CellModem.Proofs.Interleaving
import CellModem.Proofs.SweepAccount

/-!
The chronicle of a station that any number of users share. It falls into episodes, one for each
operation that obtained the lock. What an episode tells accounts for all bytes that were read and
all signals that were published while the operation had the lock, and for the alignment in which it
left the stream.
-/

namespace CellModem

open Line Station

namespace Job

/-- What a job has to show on its way. -/
def Shows : Job → Tally → Prop
  | .exchange call stage => Exchange.Shows call stage
  | .poll _ stage => Sweep.Shows stage

/-- And at its end. -/
def Closes : Operation → Outcome → Tally → Prop
  | .exchange call, .exchanged result, tally => Exchange.Closes call result tally
  | .poll _, .polled result, tally => Listener.Closes result tally
  | .exchange _, .polled _, _ | .poll _, .exchanged _, _ => False

/-- The job writes, or reads what is meant for it. -/
def isAtWork : Job → Bool
  | .exchange _ (.sending _ _ _) | .exchange _ (.flushing _ _) => true
  | .exchange _ (.receiving _ _) => true
  | .poll _ .reading | .poll _ (.completing _ _) => true
  | .exchange _ .queued | .exchange _ (.realigning _ _) => false
  | .poll _ .queued | .poll _ (.realigning _) => false

theorem not_isAtWork_of_isQueued {job : Job} (h : job.isQueued = true) :
    job.isAtWork = false := by
  cases job with
  | exchange call stage =>
    cases stage <;> first | rfl | cases h
  | poll settings stage =>
    cases stage <;> first | rfl | cases h

variable {τ : Type} {past : List Event} {entered : Alignment} {operation : Operation}

abbrev Tells (past : List Event) (entered : Alignment) (operation : Operation) (job : Job)
    (station : Station τ) : Prop :=
  job.operation = operation ∧ Recounts past entered job.Shows station

abbrev Told (past : List Event) (entered : Alignment) (operation : Operation) (outcome : Outcome)
    (station : Station τ) : Prop :=
  Recounts past entered (Closes operation outcome) station

/-- Whoever is at work finds the stream aligned. -/
theorem Shows.left_eq {job : Job} {tally : Tally} (h : job.Shows tally)
    (hwork : job.isAtWork = true) : tally.left = .aligned := by
  cases job with
  | exchange call stage =>
    cases stage with
    | queued => cases hwork
    | realigning request realignment => cases hwork
    | sending request timer begun => exact Tally.Ready.left_eq h
    | flushing timer begun => exact Tally.Ready.left_eq h
    | receiving buffer timer => exact Exchange.Open.left_eq (Exchange.Receiving.toOpen h)
  | poll settings stage =>
    cases stage with
    | queued => cases hwork
    | realigning realignment => cases hwork
    | reading => exact h.1.left_eq
    | completing buffer timer => exact Sweep.Sweeping.left_eq h

/-- And whoever is not has not changed how it stands. -/
theorem Shows.left_eq_or {job : Job} {tally : Tally} (h : job.Shows tally) :
    tally.left = .aligned ∨ tally.left = tally.entered := by
  cases hwork : job.isAtWork with
  | true => exact Or.inl (h.left_eq hwork)
  | false =>
    cases job with
    | exchange call stage =>
      cases stage with
      | queued => exact h.elim
      | realigning request realignment => exact Or.inr (Tally.Realigning.left_eq h)
      | sending request timer begun => cases hwork
      | flushing timer begun => cases hwork
      | receiving buffer timer => cases hwork
    | poll settings stage =>
      cases stage with
      | queued => exact h.elim
      | realigning realignment => exact Or.inr (Tally.Realigning.left_eq h)
      | reading => cases hwork
      | completing buffer timer => cases hwork

variable [Transport τ]

theorem step_tells (job : Job) (station : Station τ)
    (h : Tells past entered operation job station) :
    Course.Meets (Tells past entered operation) (Told past entered operation)
      (job.step station) := by
  obtain ⟨rfl, hrecounts⟩ := h
  cases job with
  | exchange call stage =>
    apply meets_of_exchange
    apply (Exchange.step_tells stage station hrecounts).imp
    · exact fun _ _ hnext => ⟨rfl, hnext⟩
    · exact fun _ _ hnext => hnext
  | poll settings stage =>
    apply meets_of_poll
    apply (Sweep.step_tells settings.responseTimeout stage station hrecounts).imp
    · exact fun _ _ hnext => ⟨rfl, hnext⟩
    · exact fun result next hnext => Listener.swept_recounts settings result next hnext

/-- An operation that obtains the lock begins an account. -/
theorem start_tells (station : Station τ) (hsendable : operation.isSendable = true)
    (hfree : station.locked = false) :
    Course.Meets (Tells (.locked :: station.happened) station.alignment operation)
      (Told (.locked :: station.happened) station.alignment operation)
      (operation.start.step station) := by
  cases operation with
  | exchange call =>
    apply meets_of_exchange
    apply (Exchange.tells_queued hsendable hfree).imp
    · exact fun _ _ hnext => ⟨rfl, hnext⟩
    · exact fun _ _ hnext => hnext
  | poll settings =>
    apply meets_of_poll
    apply (Sweep.tells_queued hfree).imp
    · exact fun _ _ hnext => ⟨rfl, hnext⟩
    · exact fun result next hnext => Listener.swept_recounts settings result next hnext

end Job

namespace Block

variable {ι τ : Type}

/-- What a block has to show for its time with the lock. -/
def Accounts (block : Block ι) (tally : Tally) : Prop :=
  match block.outcome? with
  | some outcome => Job.Closes block.operation outcome tally
  | none => ∃ job : Job, job.operation = block.operation ∧ job.Shows tally

variable [Transport τ] {block : Block ι} {first last : Station (Logged τ)}
  {progress : Progress Job Job.Outcome}

theorem Runs.tells (h : block.Runs first progress last) :
    Course.Meets (Job.Tells (.locked :: first.happened) first.alignment block.operation)
      (Job.Told (.locked :: first.happened) first.alignment block.operation)
      (progress, last) := by
  have hfirst := Job.start_tells (first.passTo block.start) h.sendable h.free
  rw [← h.run]
  exact Course.follow_meets_of_first hfirst Job.step_tells
    (fun _ _ moment htells => ⟨htells.1, htells.2.passTo moment⟩) block.later

theorem Runs.recounts (h : block.Runs first progress last) :
    Recounts (.locked :: first.happened) first.alignment block.Accounts last := by
  have htells := h.tells
  have houtcome := h.outcome
  -- Whether it moves or waits, a job under way shows the same.
  have hopen : ∀ {job : Job}, block.outcome? = none →
      Job.Tells (.locked :: first.happened) first.alignment block.operation job last →
      Recounts (.locked :: first.happened) first.alignment block.Accounts last := by
    rintro job hnone ⟨hoperation, tally, hentered, hamounts, hshows⟩
    refine ⟨tally, hentered, hamounts, ?_⟩
    simp only [Accounts, hnone]
    exact ⟨job, hoperation, hshows⟩
  cases progress with
  | finished outcome =>
    obtain ⟨tally, hentered, hamounts, hcloses⟩ := htells
    refine ⟨tally, hentered, hamounts, ?_⟩
    simp only [Accounts, houtcome, Progress.result?]
    exact hcloses
  | moved job => exact hopen houtcome htells
  | waiting job => exact hopen houtcome htells

end Block

/-- The episodes of a station are those of the blocks, and tell of everything. -/
structure Chronicles {ι τ : Type} (blocks : List (Block ι)) (station : Station τ) : Prop where
  alignment_eq : station.alignment = alignmentAfter station.happened
  episodes : List.Forall₂ (fun block episode => episode.Careful ∧ block.Accounts episode.tally)
    blocks station.episodes
  received_eq : station.received = station.episodes.flatMap Episode.received
  published_eq : station.published = station.episodes.flatMap Episode.signals

namespace Chronicles

variable {ι τ : Type} {blocks : List (Block ι)} {first last : Station τ}

theorem of_agrees (h : Chronicles blocks first) (hagrees : first.Agrees last) :
    Chronicles blocks last where
  alignment_eq := by
    rw [← hagrees.alignment, ← hagrees.happened]
    exact h.alignment_eq
  episodes := by
    rw [Station.episodes, ← hagrees.happened]
    exact h.episodes
  received_eq := by
    rw [received_eq_happened, Station.episodes, ← hagrees.happened, ← received_eq_happened]
    exact h.received_eq
  published_eq := by
    rw [← hagrees.published_eq, Station.episodes, ← hagrees.happened]
    exact h.published_eq

variable {station : Station τ} {block : Block ι}

/-- Another block adds one episode. -/
theorem snoc (h : Chronicles blocks first)
    (hblock : Recounts (.locked :: first.happened) first.alignment block.Accounts last) :
    Chronicles (blocks ++ [block]) last := by
  obtain ⟨tally, hentered, hamounts, haccounts⟩ := hblock
  obtain ⟨episode, rfl, hcareful, hhappened, hcut, hleft⟩ :=
    hamounts.cut_eq (hentered.trans h.alignment_eq)
  have hepisodes : last.episodes = first.episodes ++ [episode] := by
    rw [Station.episodes, hcut, List.reverse_cons]
    rfl
  constructor
  · exact hamounts.alignment_eq.trans hleft.symm
  · rw [hepisodes]
    exact List.rel_append h.episodes (.cons ⟨hcareful, haccounts⟩ .nil)
  · rw [hepisodes, List.flatMap_append, List.flatMap_singleton, ← h.received_eq,
      received_eq_happened, received_eq_happened, hhappened]
    simp [Episode.received, Event.receivedBytes]
  · rw [hepisodes, List.flatMap_append, List.flatMap_singleton, ← h.published_eq,
      published_eq_happened, published_eq_happened, hhappened]
    have hnothing : Event.published? .locked = none := rfl
    simp [Episode.signals, hnothing]

end Chronicles

/-- Blocks that are executed one at a time make up a chronicle. -/
theorem Serial.chronicles {ι τ : Type} [Transport τ] {first last : Station (Logged τ)}
    {blocks : List (Block ι)} (h : Serial first blocks last)
    (hfirst : Chronicles ([] : List (Block ι)) first) : Chronicles blocks last := by
  induction h with
  | nil => exact hfirst
  | snoc hserial hblock ih => exact ih.snoc hblock.recounts

namespace System

variable {ι α τ : Type}

theorem chronicles_start (transport : τ) (board : Bulletin Signal) :
    Chronicles ([] : List (Block ι)) (start transport board : System ι α τ).station :=
  ⟨rfl, .nil, rfl, rfl⟩

theorem Serialized.chronicles [DecidableEq ι] [Transport τ] {first : Station (Logged τ)}
    {system : System ι α τ} {blocks : List (Block ι)} {last : Station (Logged τ)}
    (h : Serialized first system blocks last)
    (hfirst : Chronicles ([] : List (Block ι)) first) : Chronicles blocks system.station :=
  (h.serial.chronicles hfirst).of_agrees h.agrees

end System

end CellModem
