import CellModem.Proofs.Chronicle

/-!
How operations find and leave the stream. Nobody writes, or reads what is meant for them, unless the
stream is aligned; and at the end of an operation its alignment tells whether a response was given
up, whether a line was cut, or whether everything was taken in.
-/

namespace CellModem

open Line

namespace Block

variable {ι τ : Type}

/-- How an operation leaves the stream. An exchange gives up a response that is late or too long,
and cuts a line that came with the final result. A sweep brings in bytes only from an aligned stream,
and cuts a line if these do not end with one. An operation under way has at most got rid of a
leftover. -/
def Leaves (block : Block ι) (tally : Tally) : Prop :=
  match block.operation, block.outcome? with
  | .exchange call, some (.exchanged result) =>
    (tally.left = .awaitingVerdict ↔ result = .error .timeout ∨ tally.flushed = true ∧
      Unended (Octets.ofText call.command) (tally.taken .response) ∧
      Exchange.Overflows call (tally.taken .response)) ∧
    (tally.left = .midLine ↔ Cut (Octets.ofText call.command) (tally.taken .response))
  | .poll _, some (.polled (.ok (some _))) =>
    tally.entered = .aligned ∧ tally.left ≠ .awaitingVerdict ∧
      (tally.left = .midLine ↔
        tally.taken .sweep ≠ [] ∧ (tally.taken .sweep).getLast? ≠ some lineFeed)
  | .poll _, some (.polled (.ok none)) | .poll _, some (.polled (.error _)) =>
    tally.taken .sweep = [] ∧ tally.left = if tally.realigned then .aligned else tally.entered
  | _, none => tally.left = .aligned ∨ tally.left = tally.entered
  | .exchange _, some (.polled _) | .poll _, some (.exchanged _) => False

theorem Accounts.leaves {block : Block ι} {tally : Tally} (h : block.Accounts tally) :
    block.Leaves tally := by
  obtain ⟨actor, operation, start, later, accesses, outcome?⟩ := block
  cases outcome? with
  | none =>
    obtain ⟨job, -, hshows⟩ := h
    cases operation <;> exact hshows.left_eq_or
  | some outcome =>
    cases operation with
    | exchange call =>
      cases outcome with
      | exchanged result => exact ⟨Exchange.Closes.awaiting_iff h, Exchange.Closes.midLine_iff h⟩
      | polled result => exact h.elim
    | poll settings =>
      match outcome with
      | .exchanged result => exact h.elim
      | .polled (.ok (some buffer)) => exact Listener.Closes.outcome h
      | .polled (.ok none) => exact Listener.Closes.outcome h
      | .polled (.error cause) => exact Listener.Closes.outcome h

variable [Transport τ] {block : Block ι} {first last : Station (Logged τ)}

/-- While the operation is at work, the stream is aligned. -/
theorem Runs.aligned {job : Job} (h : block.Runs first (.moved job) last)
    (hwork : job.isAtWork = true) : last.alignment = .aligned := by
  obtain ⟨-, tally, -, hamounts, hshows⟩ := h.tells
  exact hamounts.alignment_eq.trans (hshows.left_eq hwork)

end Block

namespace System

variable {ι α τ : Type} [DecidableEq ι] [Transport τ]

/-- Only the holder of the lock is at work. -/
theorem Explained.aligned {first : Station (Logged τ)} {system : System ι α τ} {place : ι}
    {job : Job} (h : Explained first system) (hjob : (system.actors place).job? = some job)
    (hwork : job.isAtWork = true) : system.station.alignment = .aligned := by
  have hidle : ¬ (system.actors place).Awaits := by
    intro hawaits
    rw [Job.not_isAtWork_of_isQueued (hawaits job hjob)] at hwork
    cases hwork
  cases h with
  | free hserial hended hmirrors hfree hawaits => exact absurd (hawaits place) hidle
  | @held blocks block holding middle last hserial hended hblock hmirrors hlocked hqueued howner
      hawaits =>
    have hplace : place = block.actor := by
      apply Decidable.byContradiction
      intro hother
      exact hidle (hawaits place hother)
    rw [hplace, howner] at hjob
    cases hjob
    exact hmirrors.agrees.alignment.symm.trans (hblock.aligned hwork)

/-- Whatever the users do, and in whatever order, whoever is at work finds the stream aligned, so
has everybody before, and each operation has left the stream as it had to. -/
theorem aligned_at_work (transport : τ) (board : Bulletin Signal) (schedule : List (Choice ι α)) :
    let system : System ι α τ := (start transport board).run schedule
    (∀ place job, (system.actors place).job? = some job → job.isAtWork = true →
      system.station.alignment = .aligned) ∧
    system.station.alignment = alignmentAfter system.station.happened ∧
    ∃ blocks last, Serialized (start transport board : System ι α τ).station system blocks last ∧
      List.Forall₂ (fun block episode => episode.Careful ∧ block.Leaves episode.tally) blocks
        system.station.episodes := by
  intro system
  have hexplained : Explained _ system := (explained_start transport board).run schedule
  obtain ⟨blocks, last, hserialized⟩ := hexplained.serialized
  have hchronicles := hserialized.chronicles (chronicles_start transport board)
  refine ⟨?_, hchronicles.alignment_eq, blocks, last, hserialized, ?_⟩
  · intro place job hjob hwork
    exact hexplained.aligned hjob hwork
  · apply hchronicles.episodes.imp
    intro block episode haccounts
    exact ⟨haccounts.1, haccounts.2.leaves⟩

end System

end CellModem
