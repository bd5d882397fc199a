import Mathlib
import CellModem.Bench.Modem
import CellModem.Proofs.Exchange
import CellModem.Proofs.Frame

/-!
Giving up within a response. Running out of time and running out of room leave a note in the
alignment of the stream, and whoever reads next gets rid of the leftover before anything else. A
failing transport leaves no such note.
-/

namespace CellModem

/-- Whether an event is part of a reader's own business: handing over a request, or reading for
another purpose than to get rid of a leftover. -/
def Event.isOwn : Event → Bool
  | .offered _ => true
  | .received purpose _ | .readFailed purpose => purpose != .realignment
  | _ => false

namespace Station

variable {τ : Type}

/-- Since that past, nobody went about business of their own. -/
def Untouched (past : List Event) (station : Station τ) : Prop :=
  ∃ events, station.journal = events ++ past ∧ ∀ event ∈ events, event.isOwn = false

/-- Since that past, nobody went about business of their own until the stream was aligned. -/
def Realigned (past : List Event) (station : Station τ) : Prop :=
  ∃ later before, station.journal = later ++ .aligned .aligned :: before ++ past ∧
    ∀ event ∈ before, event.isOwn = false

/-- If anybody went about business of their own since that past, the stream was aligned first. -/
def RealignedFirst (past : List Event) (station : Station τ) : Prop :=
  Untouched past station ∨ Realigned past station

variable {past : List Event} {station : Station τ}

theorem realignedFirst_of_or {P : Prop}
    (h : Realigned past station ∨ Untouched past station ∧ P) : RealignedFirst past station := by
  rcases h with hrealigned | ⟨huntouched, -⟩
  · exact Or.inr hrealigned
  · exact Or.inl huntouched

theorem untouched_refl (station : Station τ) : Untouched station.journal station :=
  ⟨[], rfl, fun _ h => nomatch h⟩

theorem Untouched.record {event : Event} (h : Untouched past station)
    (hown : event.isOwn = false) : Untouched past (station.record event) := by
  obtain ⟨events, hjournal, hevents⟩ := h
  refine ⟨event :: events, ?_, ?_⟩
  · simp only [Station.record, hjournal, List.cons_append]
  · intro other hother
    rcases List.mem_cons.mp hother with rfl | hearlier
    · exact hown
    · exact hevents other hearlier

theorem Untouched.align (h : Untouched past station) : Realigned past (station.align .aligned) := by
  obtain ⟨events, hjournal, hevents⟩ := h
  exact ⟨[], events, by simp [Station.align, Station.record, hjournal], hevents⟩

theorem Untouched.publishAll {purpose : Purpose} {signals : List Signal}
    (h : Untouched past station) : Untouched past (station.publishAll purpose signals) := by
  induction signals generalizing station with
  | nil => exact h
  | cons signal signals ih =>
    have hposted : Untouched past (station.publish purpose signal) := h.record rfl
    exact ih hposted

theorem Realigned.record {event : Event} (h : Realigned past station) :
    Realigned past (station.record event) := by
  obtain ⟨later, before, hjournal, hbefore⟩ := h
  exact ⟨event :: later, before, by simp [Station.record, hjournal], hbefore⟩

/-- Nothing that happens later undoes this. -/
theorem Realigned.overlay (recent : Station τ) (h : Realigned past station) :
    Realigned past (station.overlay recent) := by
  obtain ⟨later, before, hjournal, hbefore⟩ := h
  exact ⟨recent.journal ++ later, before, by simp [Station.overlay, hjournal], hbefore⟩

variable [Transport τ]

theorem Untouched.read (room : Nat) (h : Untouched past station) :
    Untouched past (station.read .realignment room).2 := by
  have hnoted : ∀ attempt : Attempt (Chunk room), ∀ next : Station τ, Untouched past next →
      Untouched past (next.noteRead .realignment attempt) := by
    intro attempt next hnext
    cases attempt with
    | done chunk => exact hnext.record rfl
    | failed => exact hnext.record rfl
    | waiting => exact hnext
  exact hnoted _ _ h

end Station

open Station

variable {τ : Type} [Transport τ]

/-- Getting rid of a leftover is nobody's own business, and it ends with an aligned stream. -/
theorem Realignment.step_realigned {past : List Event} (realignment : Realignment)
    (station : Station τ) (h : Untouched past station) :
    Course.Meets (fun _ next => Untouched past next) (fun _ next => Realigned past next)
      (realignment.step station) := by
  obtain ⟨purge, timer⟩ := realignment
  unfold Realignment.step
  by_cases hdone : purge.isDone
  · simp only [hdone, if_true]
    exact h.align
  · simp only [hdone]
    have hread := h.read purge.buffer.room
    cases hrun : station.read .realignment purge.buffer.room with
    | mk attempt next =>
      rw [hrun] at hread
      cases attempt with
      | waiting =>
        cases hask : timer.ask next.now with
        | some later =>
          simp only [hask]
          exact hread
        | none =>
          simp only [hask]
          exact hread.align
      | failed => exact hread.align
      | done chunk =>
        by_cases hend : chunk.val = []
        · simp only [hend, if_true]
          exact hread.align
        · simp only [hend, if_false]
          exact hread.publishAll

omit [Transport τ] in
/-- A step only adds to the past, so an aligned stream stays behind it. -/
theorem Station.Realigned.meets {σ α : Type} {past : List Event}
    {invariant : σ → Station τ → Prop} {post : α → Station τ → Prop}
    {outcome : Progress σ α × Station τ} {station recent : Station τ}
    (h : Realigned past station) (hnext : outcome.2 = station.overlay recent)
    (hinvariant : ∀ state next, Realigned past next → invariant state next)
    (hpost : ∀ result next, Realigned past next → post result next) :
    Course.Meets invariant post outcome := by
  have hkept : Realigned past outcome.2 := hnext ▸ h.overlay recent
  obtain ⟨progress, next⟩ := outcome
  cases progress with
  | moved state => exact hinvariant state next hkept
  | waiting state => exact hinvariant state next hkept
  | finished result => exact hpost result next hkept

namespace Exchange

/-- Before the stream is aligned, an exchange has not come further than to the leftover. -/
def Realigns (past : List Event) (stage : Stage) (station : Station τ) : Prop :=
  Realigned past station ∨ Untouched past station ∧
    match stage with
    | .queued => station.alignment ≠ .aligned
    | .realigning _ _ => True
    | .sending _ _ _ | .flushing _ _ | .receiving _ _ => False

theorem step_realigns {past : List Event} (call : Call) (stage : Stage) (station : Station τ)
    (h : Realigns past stage station) :
    Course.Meets (Realigns past) (fun _ next => RealignedFirst past next)
      (step call stage station) := by
  rcases h with hdone | ⟨huntouched, hstage⟩
  · have hnext := congrArg Prod.snd (step_eq_overlay call stage station)
    exact hdone.meets hnext (fun _ _ => Or.inl) (fun _ _ => Or.inr)
  · cases stage with
    | queued =>
      unfold step
      cases hrequest : call.request? with
      | none => exact Or.inl huntouched
      | some request =>
        by_cases hlocked : station.locked
        · simp only [hlocked, if_true]
          exact Or.inr ⟨huntouched, hstage⟩
        · have halignment : station.lock.alignment ≠ .aligned := hstage
          simp only [hlocked, halignment, if_false]
          exact Or.inr ⟨huntouched.record rfl, trivial⟩
    | realigning request realignment =>
      have hrealigned := realignment.step_realigned station huntouched
      cases hrun : realignment.step station with
      | mk progress next =>
        rw [hrun] at hrealigned
        simp only [step, hrun]
        cases progress with
        | moved later => exact Or.inr ⟨hrealigned, trivial⟩
        | waiting later => exact Or.inr ⟨hrealigned, trivial⟩
        | finished result => exact Or.inl hrealigned
    | sending request timer begun => exact hstage.elim
    | flushing timer begun => exact hstage.elim
    | receiving buffer timer => exact hstage.elim

/-- An exchange that finds the stream unaligned gets rid of the leftover before it sends. -/
theorem follow_realigns (call : Call) (moments : List Millis) (station : Station τ)
    (h : station.alignment ≠ .aligned) :
    RealignedFirst station.journal (Course.follow (step call) moments .queued station).2 := by
  have hrun := Course.follow_meets (step_realigns call)
    (fun _ _ _ h => h) moments .queued station (Or.inr ⟨untouched_refl station, h⟩)
  exact hrun.station (fun _ _ => realignedFirst_of_or) fun _ _ hpost => hpost

end Exchange

namespace Sweep

/-- Before the stream is aligned, a sweep has not come further than to the leftover. -/
def Realigns (past : List Event) (stage : Stage) (station : Station τ) : Prop :=
  Realigned past station ∨ Untouched past station ∧
    match stage with
    | .queued => station.alignment ≠ .aligned
    | .realigning _ => True
    | .reading | .completing _ _ => False

theorem step_realigns {past : List Event} (timeout : Millis) (stage : Stage)
    (station : Station τ) (h : Realigns past stage station) :
    Course.Meets (Realigns past) (fun _ next => RealignedFirst past next)
      (step timeout stage station) := by
  rcases h with hdone | ⟨huntouched, hstage⟩
  · have hnext := congrArg Prod.snd (step_eq_overlay timeout stage station)
    exact hdone.meets hnext (fun _ _ => Or.inl) (fun _ _ => Or.inr)
  · cases stage with
    | queued =>
      unfold step
      by_cases hlocked : station.locked
      · simp only [hlocked, if_true]
        exact Or.inr ⟨huntouched, hstage⟩
      · have hprobed : Untouched past station.lock.probe.2 :=
          (huntouched.record rfl).record rfl
        have halignment : station.lock.probe.2.alignment ≠ .aligned := hstage
        simp only [hlocked]
        cases hrun : station.lock.probe with
        | mk ready next =>
          rw [hrun] at hprobed halignment
          match ready with
          | none => exact Or.inl (hprobed.record rfl)
          | some false => exact Or.inl (hprobed.record rfl)
          | some true =>
            simp only [halignment, if_false]
            exact Or.inr ⟨hprobed, trivial⟩
    | realigning realignment =>
      have hrealigned := realignment.step_realigned station huntouched
      cases hrun : realignment.step station with
      | mk progress next =>
        rw [hrun] at hrealigned
        simp only [step, hrun]
        cases progress with
        | moved later => exact Or.inr ⟨hrealigned, trivial⟩
        | waiting later => exact Or.inr ⟨hrealigned, trivial⟩
        | finished result =>
          exact Or.inr hrealigned.record
    | reading => exact hstage.elim
    | completing buffer timer => exact hstage.elim

/-- A sweep that finds the stream unaligned gets rid of the leftover, if it reads at all. -/
theorem follow_realigns (timeout : Millis) (moments : List Millis) (station : Station τ)
    (h : station.alignment ≠ .aligned) :
    RealignedFirst station.journal (Course.follow (step timeout) moments .queued station).2 := by
  have hrun := Course.follow_meets (step_realigns timeout)
    (fun _ _ _ h => h) moments .queued station (Or.inr ⟨untouched_refl station, h⟩)
  exact hrun.station (fun _ _ => realignedFirst_of_or) fun _ _ hpost => hpost

end Sweep

namespace Exchange

/-- How the ways to end without a final result differ in the alignment of the stream. -/
theorem ending_of_giving_up {call : Call} {before : List Octets} {cause : Error}
    {standing : Standing} (hends : Ends call before (.error cause) standing)
    (hoffered : standing.requests ≠ before)
    (hunseen : ∀ lines verdict,
      ¬ Line.Concludes (Octets.ofText call.command) standing.reply lines verdict) :
    standing.locked = false ∧
      (standing.alignment ≠ .aligned ↔
        cause = .timeout ∨ standing.flushed = true ∧ Overflows call standing.reply) := by
  generalize hresult : (.error cause : Result) = result at hends
  cases hends with
  | unsendable hrequest hrequests => exact absurd hrequests hoffered
  | timedOut hrequest hunended =>
    cases hresult
    simp
  | overflowed hrequest hunended hfull =>
    simp [hfull]
  | failed hrequest hunended hroom =>
    cases hresult
    refine ⟨rfl, ?_⟩
    constructor
    · intro hunaligned
      exact absurd rfl hunaligned
    · rintro (htimeout | ⟨hflushed, hfull⟩)
      · cases htimeout
      · exact absurd hfull (hroom hflushed)
  | concluded hrequest hconcludes halignment => exact absurd hconcludes (hunseen _ _)

/-- An exchange that has handed over its request and gives up without a final result leaves the
stream unaligned if it ran out of time or out of room, and only then. In that case whoever reads
next gets rid of the leftover before anything else. -/
theorem unaligned_iff_of_giving_up (call : Call) (moments : List Millis) (station final : Station τ)
    (cause : Error)
    (hrun : Course.follow (step call) moments .queued station = (.finished (.error cause), final))
    (hoffered : final.requests ≠ station.requests)
    (hunseen : ∀ lines verdict,
      ¬ Line.Concludes (Octets.ofText call.command) final.reply lines verdict) :
    final.locked = false ∧
      (final.alignment ≠ .aligned ↔
        cause = .timeout ∨ final.standing.flushed = true ∧ Overflows call final.reply) ∧
      ∀ later : Station τ, later.alignment = final.alignment → final.alignment ≠ .aligned →
        (∀ next moments, RealignedFirst later.journal
          (Course.follow (step next) moments .queued later).2) ∧
        ∀ timeout moments, RealignedFirst later.journal
          (Course.follow (Sweep.step timeout) moments .queued later).2 := by
  have hends := follow_upholds call moments station
  rw [hrun] at hends
  obtain ⟨hlocked, halignment⟩ := ending_of_giving_up hends hoffered hunseen
  refine ⟨hlocked, halignment, ?_⟩
  intro later hlater hunaligned
  rw [← hlater] at hunaligned
  constructor
  · intro next moments
    exact follow_realigns next moments later hunaligned
  · intro timeout moments
    exact Sweep.follow_realigns timeout moments later hunaligned

/-- A modem whose first response breaks off within its only line and goes on later. -/
def breakingModem : Bench.Modem where
  rules :=
    [{ request := Octets.ofText "AT+CGMR"
       replies :=
         [[{ content := .data (Octets.ofText "mfw_") }, { content := .broken },
           { content := .data (Octets.ofText "1.0\r\nOK\r\n") }]] }]

def versionCall : Call where
  command := "AT+CGMR"
  terminator := "\r\n"
  timeout := 1000
  size := 16

/-- The station after a response that broke off. -/
def stationAfterBreak : Station Bench.Modem :=
  (Course.follow (step versionCall) [0, 0, 0, 0, 0] .queued { transport := breakingModem }).2

set_option maxRecDepth 4000 in
/-- A failing read leaves the stream aligned, and the next command is answered with what was left of
the response. -/
theorem aligned_after_failing_read :
    stationAfterBreak.requests = [Octets.ofText "AT+CGMR\r\n"] ∧
      stationAfterBreak.reply = Octets.ofText "mfw_" ∧
      stationAfterBreak.alignment = .aligned ∧
      (Course.follow (step { versionCall with command := "AT%XVBAT" }) [0, 0, 0, 0] .queued
        stationAfterBreak).1 = .finished (.ok (Octets.ofText "1.0")) := by
  have hresult : (Course.follow (step versionCall) [0, 0, 0, 0, 0] .queued
      { transport := breakingModem }).1 = .finished (.error .transport) := by cbv
  have hrequests : stationAfterBreak.requests = [Octets.ofText "AT+CGMR\r\n"] := by cbv
  have hreply : stationAfterBreak.reply = Octets.ofText "mfw_" := by cbv
  have hunended : Line.Unended (Octets.ofText versionCall.command) stationAfterBreak.reply := by
    rw [hreply]
    exact ⟨Line.undecided_nil _, by decide⟩
  have hfits : ¬ Overflows versionCall stationAfterBreak.reply := by
    rw [hreply]
    unfold Overflows
    decide
  have hgiven := unaligned_iff_of_giving_up versionCall [0, 0, 0, 0, 0] { transport := breakingModem }
    stationAfterBreak .transport (Prod.ext hresult rfl) (by rw [hrequests]; exact List.cons_ne_nil _ _)
    fun lines verdict hconcludes => hconcludes.not_unended hunended
  refine ⟨hrequests, hreply, ?_, by cbv⟩
  refine Decidable.byContradiction fun hunaligned => ?_
  rcases hgiven.2.1.mp hunaligned with htimeout | ⟨-, hfull⟩
  · cases htimeout
  · exact hfits hfull

end Exchange

end CellModem
