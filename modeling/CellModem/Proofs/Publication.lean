import CellModem.Bench.Modem
import CellModem.Proofs.Chronicle

/-!
No signal report is lost, and none is passed on twice. Every byte is read for one purpose, in the
course of one operation, and what is published from the bytes of a purpose is what their complete
lines announce, in the order of the lines. Two kinds of lines are exempt: those that only repeat the
command in front of its final result, and the first one behind a cut.
-/

namespace CellModem

open Line

/-- What was published while the operation had the lock is what the lines announce that it read for
each purpose. A sweep passes on what it brought in when it is over. -/
structure Block.Announces {ι : Type} (block : Block ι) (tally : Tally) : Prop where
  inOrder : tally.InOrder
  leftover : tally.Sifts
  response : ∀ call, block.operation = .exchange call → tally.Lacks .sweep ∧
    tally.published .response =
      answered (Octets.ofText call.command) (split (tally.taken .response)).1
  sweep : ∀ settings, block.operation = .poll settings → tally.Lacks .response ∧
    tally.published .sweep =
      if block.outcome?.isSome then announced (split (tally.taken .sweep)).1 else []

namespace Block

variable {ι : Type} {block : Block ι} {tally : Tally}

theorem announces_of_exchange {call : Call} (hoperation : block.operation = .exchange call)
    (h : Exchange.Passes call tally) : block.Announces tally where
  inOrder := h.inOrder
  leftover := h.sifts
  response other hother := by
    cases hoperation.symm.trans hother
    exact ⟨h.sweep, h.published_eq⟩
  sweep settings hother := by
    cases hoperation.symm.trans hother

theorem announces_of_poll {settings : Settings} (hoperation : block.operation = .poll settings)
    (hinOrder : tally.InOrder) (hsifts : tally.Sifts) (hresponse : tally.Lacks .response)
    (hpublished : tally.published .sweep =
      if block.outcome?.isSome then announced (split (tally.taken .sweep)).1 else []) :
    block.Announces tally where
  inOrder := hinOrder
  leftover := hsifts
  response call hother := by
    cases hoperation.symm.trans hother
  sweep _ _ := ⟨hresponse, hpublished⟩

theorem Accounts.announces (h : block.Accounts tally) : block.Announces tally := by
  unfold Accounts at h
  cases houtcome : block.outcome? with
  | none =>
    rw [houtcome] at h
    obtain ⟨job, hoperation, hshows⟩ := h
    cases job with
    | exchange call stage =>
      exact announces_of_exchange hoperation.symm (Exchange.passes_of_shows hshows)
    | poll settings stage =>
      have hwithholds := Sweep.withholds_of_shows hshows
      apply announces_of_poll hoperation.symm hwithholds.inOrder hwithholds.sifts
        hwithholds.response
      rw [houtcome]
      exact hwithholds.published_eq
  | some outcome =>
    rw [houtcome] at h
    change Job.Closes block.operation outcome tally at h
    cases hoperation : block.operation with
    | exchange call =>
      rw [hoperation] at h
      cases outcome with
      | exchanged result => exact announces_of_exchange hoperation (Exchange.Closes.toPasses h)
      | polled result => exact h.elim
    | poll settings =>
      rw [hoperation] at h
      cases outcome with
      | exchanged result => exact h.elim
      | polled result =>
        obtain ⟨hinOrder, hsifts, hresponse, hpublished, -⟩ := h
        apply announces_of_poll hoperation hinOrder hsifts hresponse
        rw [houtcome]
        exact hpublished

end Block

namespace System

variable {ι α τ : Type} [DecidableEq ι] [Transport τ]

/-- Whatever the users do, and in whatever order, all bytes that were read and all signals that were
published belong to the operations that had the lock, one after the other, and each operation
published just what its lines announce. -/
theorem publishes_announced (transport : τ) (board : Bulletin Signal)
    (schedule : List (Choice ι α)) :
    let system : System ι α τ := (start transport board).run schedule
    ∃ blocks last, Serialized (start transport board : System ι α τ).station system blocks last ∧
      List.Forall₂ (fun block episode => block.Announces episode.tally) blocks
        system.station.episodes ∧
      system.station.received = system.station.episodes.flatMap Episode.received ∧
      system.station.published = system.station.episodes.flatMap Episode.signals := by
  intro system
  obtain ⟨blocks, last, hserialized⟩ :=
    ((explained_start transport board).run schedule : Explained _ system).serialized
  have hchronicles := hserialized.chronicles (chronicles_start transport board)
  refine ⟨blocks, last, hserialized, ?_, hchronicles.received_eq, hchronicles.published_eq⟩
  exact hchronicles.episodes.imp fun block episode haccounts => haccounts.2.announces

/-- A command that reads like a signal report. -/
def reportCall : Call where
  command := "%CESQ: 64,3"
  terminator := "\r\n"
  timeout := 500

/-- A modem that repeats the command as a report of its own, behind the final result. -/
def repeatingModem : Bench.Modem where
  rules :=
    [{ request := Octets.ofText "%CESQ: 64,3"
       replies := [[{ content := .data (Octets.ofText "OK\r\n%CESQ: 64,3\r\n") }]] }]

def repeatingSystem : System Unit Exchange.Result Bench.Modem :=
  (start repeatingModem {}).run
    [.talk () (Dialogue.request reportCall), .act (), .act (), .act (), .act ()]

/-- A report that fits the buffer, but not together with its line end. -/
def longReport : Octets :=
  Octets.ofText "%CESQ: 64,3," ++ List.replicate 243 49

theorem announced_longReport (lines : List Octets) :
    announced (longReport :: lines) = ⟨64⟩ :: announced lines := by
  have hnotice : isNotice longReport.trim = true := by decide +kernel
  have hsignal : Signal.ofLine? longReport = some ⟨64⟩ := by decide +kernel
  rw [announced_cons_of_isNotice lines hnotice, hsignal]
  rfl

def statusCall : Call where
  command := "AT"
  terminator := "\r\n"
  timeout := 500

/-- A modem that answers too late, and with a long report in front of the final result. -/
def lateModem : Bench.Modem where
  rules :=
    [{ request := Octets.ofText "AT"
       replies :=
         [[{ content := .data (longReport ++ Octets.ofText "\r\nOK\r\n"), delay := 1000 }]] }]

def lateSystem : System Unit Exchange.Result Bench.Modem :=
  (start lateModem {}).run
    [.talk () (.ask statusCall fun _ => Dialogue.request statusCall), .act (), .act (), .act (),
      .act (), .pass 500, .act (), .pass 1000, .act (), .act (), .act (), .act ()]

set_option maxRecDepth 8000 in
/-- A line that repeats the command is a report all the same behind the final result. And while a
leftover is got rid of, a report is lost if it fills the buffer together with its carriage
return. -/
theorem repeat_published_and_long_report_lost :
    (∃ episode ∈ repeatingSystem.station.episodes,
      episode.published .response ≠
        announced ((split (episode.taken .response)).1.filter fun line =>
          !isEcho (Octets.ofText reportCall.command) line)) ∧
    ∃ episode ∈ lateSystem.station.episodes, episode.entered = .awaitingVerdict ∧
      (∀ line ∈ (split (episode.taken .realignment)).1, line.length < Limits.response) ∧
      episode.published .realignment ≠ announced (split (episode.taken .realignment)).1 := by
  have hrepeat : repeatingSystem.station.episodes.map
      (fun episode => (episode.taken .response, episode.published .response)) =
        [(Octets.ofText "OK\r\n%CESQ: 64,3\r\n", [⟨64⟩])] := by cbv
  -- The first read for the leftover takes 256 bytes, up to the carriage return, without a line end.
  have hlate : lateSystem.station.episodes.map
      (fun episode => (episode.entered, episode.taken .realignment, episode.published .realignment)) =
        [(.aligned, [], []),
          (.awaitingVerdict, longReport ++ Octets.ofText "\r\nOK\r\n", [])] := by cbv
  constructor
  · have hfound : (Octets.ofText "OK\r\n%CESQ: 64,3\r\n", [(⟨64⟩ : Signal)]) ∈
        repeatingSystem.station.episodes.map
          (fun episode => (episode.taken .response, episode.published .response)) := by
      rw [hrepeat]
      exact List.mem_singleton_self _
    obtain ⟨episode, hepisode, hpair⟩ := List.mem_map.mp hfound
    obtain ⟨htaken, hpublished⟩ := Prod.mk.inj hpair
    have hnothing : announced ((split (Octets.ofText "OK\r\n%CESQ: 64,3\r\n")).1.filter
        fun line => !isEcho (Octets.ofText reportCall.command) line) = [] := by cbv
    refine ⟨episode, hepisode, ?_⟩
    rw [htaken, hpublished, hnothing]
    exact List.cons_ne_nil _ _
  · have hfound : (Alignment.awaitingVerdict, longReport ++ Octets.ofText "\r\nOK\r\n",
        ([] : List Signal)) ∈ lateSystem.station.episodes.map (fun episode =>
          (episode.entered, episode.taken .realignment, episode.published .realignment)) := by
      rw [hlate]
      exact List.mem_cons_of_mem _ (List.mem_singleton_self _)
    obtain ⟨episode, hepisode, htriple⟩ := List.mem_map.mp hfound
    obtain ⟨hentered, hpair⟩ := Prod.mk.inj htriple
    obtain ⟨htaken, hpublished⟩ := Prod.mk.inj hpair
    have hlines : (split (longReport ++ Octets.ofText "\r\nOK\r\n")).1 =
        [longReport, Octets.ofText "OK"] := by cbv
    refine ⟨episode, hepisode, hentered, ?_, ?_⟩
    · rw [htaken, hlines]
      decide
    · rw [htaken, hpublished, hlines, announced_longReport]
      exact (List.cons_ne_nil _ _).symm

end System

end CellModem
