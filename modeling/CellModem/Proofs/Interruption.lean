import CellModem.Proofs.Actor
import CellModem.Proofs.Boundary
import CellModem.Proofs.Isolation
import CellModem.Proofs.Publication
import CellModem.Proofs.Recital

/-!
A look of the listener that ends within a line. Nothing of the line is ever published, and the next
exchange goes on as if it had never begun: the rest of it is dropped, however long it is and however
it is cut into reads, and the signal reports behind it are passed on, be it before the request or
together with the response.
-/

namespace CellModem

open Line

namespace Line

theorem split_append_of_complete {front : Octets} (h : (split front).2 = []) (back : Octets) :
    split (front ++ back) = ((split front).1 ++ (split back).1, (split back).2) := by
  rw [split_append, h, List.nil_append]

/-- Complete signal reports, each of which fits into the buffer for a leftover, together with the
carriage return that may end it. -/
structure Notices (bytes : Octets) : Prop where
  complete : (split bytes).2 = []
  notice : ∀ line ∈ (split bytes).1, isNotice line.trim = true
  fits : ∀ raw ∈ (splitRaw bytes).1, raw.length < Limits.response

theorem Notices.behind {front back : Octets} (h : Notices (front ++ back))
    (hfront : (split front).2 = []) : Notices back := by
  have hsplit := split_append_of_complete hfront back
  have hraw : splitRaw (front ++ back) =
      ((splitRaw front).1 ++ (splitRaw back).1, (splitRaw back).2) := by
    have hrest : (splitRaw front).2 = [] := hfront
    rw [splitRaw_append, hrest, List.nil_append]
  constructor
  · exact (congrArg Prod.snd hsplit).symm.trans h.complete
  · intro line hline
    apply h.notice
    rw [hsplit]
    exact List.mem_append_right _ hline
  · intro raw hmem
    apply h.fits
    rw [hraw]
    exact List.mem_append_right _ hmem

/-- A piece of such a stream never ends with an unfinished line that fills the buffer. -/
theorem Notices.length_rest_lt {front back : Octets} (h : Notices (front ++ back)) :
    (split front).2.length < Limits.response := by
  have hraw := splitRaw_append front back
  cases hlines : (splitRaw ((splitRaw front).2 ++ back)).1 with
  | nil =>
    have hcomplete : (splitRaw (front ++ back)).2 = [] := h.complete
    rw [hraw] at hcomplete
    have hnothing := eq_nil_of_split (Prod.ext (congrArg (List.map chomp) hlines) hcomplete)
    rw [split, (List.append_eq_nil_iff.mp hnothing).1]
    decide
  | cons raw raws =>
    obtain ⟨tail, rfl⟩ := splitRaw_append_cons (lineFeed_notMem_rest front) hlines
    have hfits := h.fits ((splitRaw front).2 ++ tail) (by simp [hraw, hlines])
    rw [List.length_append] at hfits
    exact Nat.lt_of_le_of_lt (Nat.le_add_right _ _) hfits

theorem kind_of_isNotice {line : Octets} (command : Octets) (h : isNotice line.trim = true) :
    kind command line = .notice ∨ kind command line = .echo := by
  cases hecho : isEcho command line with
  | false => exact Or.inl (kind_eq_notice_iff.mpr ⟨h, hecho⟩)
  | true =>
    have hblank : line.trim.isEmpty = false := by
      cases hline : line.trim with
      | nil =>
        rw [hline] at h
        cases h
      | cons b bytes => rfl
    exact Or.inr (by simp [kind_eq, hblank, hecho])

/-- A signal report does not begin like a final result. -/
theorem not_misleading_of_isNotice {line : Octets} (h : isNotice line.trim = true) :
    ¬ Misleading line := by
  obtain ⟨more, hmore⟩ := List.isPrefixOf_iff_prefix.mp h
  have hhead : line.trim.head? = some 37 := by
    rw [← hmore]
    rfl
  rintro (⟨rest, rfl⟩ | ⟨rest, rfl⟩)
  · have hother : (Octets.ofText "OK" ++ rest).trim.head? = some 79 := Octets.head?_trim (by decide)
    rw [hhead] at hother
    cases hother
  · have hother : (Octets.ofText "ERROR" ++ rest).trim.head? = some 69 :=
      Octets.head?_trim (by decide)
    rw [hhead] at hother
    cases hother

/-- Signal reports in front of a response leave its end as it is, and its payload. -/
theorem Notices.regular {command front reply final : Octets} {lines : List Octets} {v : Verdict}
    (h : Notices front) (hreply : Regular command reply lines final v) :
    Regular command (front ++ reply) ((split front).1 ++ lines) final v := by
  have hsplit := split_append_of_complete h.complete reply
  obtain ⟨later, hlines⟩ := hreply.lines_eq
  constructor
  · rw [hsplit]
    exact hreply.complete
  · refine ⟨later, ?_⟩
    rw [hsplit, hlines, List.append_assoc]
  · refine Undecided.append ?_ hreply.undecided
    intro line hline v
    rcases kind_of_isNotice command (h.notice line hline) with hkind | hkind <;> simp [hkind]
  · intro line hline
    rcases List.mem_append.mp hline with hfront | hback
    · exact not_misleading_of_isNotice (h.notice line hfront)
    · exact hreply.plain line hback
  · exact hreply.final_kind

theorem Notices.payload_append {front : Octets} (h : Notices front) (command : Octets)
    (lines : List Octets) : payload command ((split front).1 ++ lines) = payload command lines := by
  have hnone : dataLines command (split front).1 = [] := by
    rw [dataLines, List.filter_eq_nil_iff]
    intro line hline
    rcases kind_of_isNotice command (h.notice line hline) with hkind | hkind <;> simp [hkind]
  have hall : dataLines command ((split front).1 ++ lines) = dataLines command lines := by
    rw [dataLines, List.filter_append, ← dataLines, hnone]
    rfl
  rw [payload, hall]
  rfl

end Line

namespace Alignment

theorem behind_aligned (lines : List Octets) : aligned.behind lines = .aligned := by
  induction lines with
  | nil => rfl
  | cons line lines ih => exact ih

end Alignment

namespace Purge

/-- How far the rest of a cut line is got rid of, and what was published meanwhile. Until its line
feed was found nothing was; from then on it is what the lines behind it announce. -/
def Resumes (following left : Octets) (signals : List Signal) (purge : Purge) : Prop :=
  (purge.alignment = .midLine ∧ signals = [] ∧ lineFeed ∉ purge.buffer.pending ∧
      ∃ tail, lineFeed ∉ tail ∧ purge.buffer.pending ++ left = tail ++ lineFeed :: following) ∨
    purge.alignment = .aligned ∧ ∃ consumed, consumed ++ left = following ∧
      purge.buffer.pending = (split consumed).2 ∧ signals = announced (split consumed).1

variable {following left : Octets} {signals : List Signal} {purge : Purge}

/-- As long as it goes on, there is something left to read. -/
theorem Resumes.left_ne_nil (h : Resumes following left signals purge)
    (hcomplete : (split following).2 = []) (hdone : purge.isDone = false) : left ≠ [] := by
  rintro rfl
  rcases h with ⟨-, -, hfeed, tail, -, hbytes⟩ | ⟨haligned, consumed, rfl, hpending, -⟩
  · rw [List.append_nil] at hbytes
    exact hfeed (by simp [hbytes])
  · rw [List.append_nil] at hcomplete
    simp [isDone, haligned, hpending, hcomplete] at hdone

/-- An unfinished line stays in the buffer if it is shorter than that. -/
theorem Absorbed.pending_eq {bytes dropped : Octets} {result : Purge × List Signal}
    (h : Absorbed purge bytes dropped result) (hkept : purge.buffer.kept = 0)
    (hshort : (split (purge.buffer.pending ++ bytes)).2.length < purge.buffer.storage.length) :
    result.1.buffer.pending = (split (purge.buffer.pending ++ bytes)).2 := by
  have hrest := h.rest_eq
  rcases h.dropped_eq with rfl | ⟨hpending, hlength⟩
  · exact hrest.symm
  · rw [hrest, hpending, List.append_nil] at hshort
    omega

/-- Bytes without a line feed belong to the rest of the cut line. -/
theorem Absorbed.resumes_of_unfinished {bytes dropped : Octets} {result : Purge × List Signal}
    (h : Absorbed purge bytes dropped result) (hcut : purge.alignment = .midLine)
    (hnext : next? (purge.buffer.pending ++ bytes) = none) {tail : Octets} (htail : lineFeed ∉ tail)
    (hbytes : purge.buffer.pending ++ bytes ++ left = tail ++ lineFeed :: following) :
    Resumes following left result.2 result.1 := by
  have hsplit := split_of_next?_eq_none hnext
  have hrest : (split (purge.buffer.pending ++ bytes)).2 = purge.buffer.pending ++ bytes :=
    congrArg Prod.snd hsplit
  have hfeed : lineFeed ∉ purge.buffer.pending ++ bytes := by
    rw [← hrest]
    exact lineFeed_notMem_rest _
  have hpending := h.rest_eq
  have halignment := h.alignment_eq
  have hsignals := h.signals_eq
  rw [hsplit] at hpending halignment hsignals
  rw [hcut] at halignment hsignals
  change purge.buffer.pending ++ bytes = dropped ++ result.1.buffer.pending at hpending
  rw [hpending] at hfeed hbytes
  refine Or.inl ⟨halignment, hsignals, fun hmem => hfeed (List.mem_append_right _ hmem), ?_⟩
  rcases List.append_eq_append_iff.mp hbytes with ⟨more, rfl, hleft⟩ | ⟨more, hfront, hback⟩
  · refine ⟨result.1.buffer.pending ++ more, ?_, ?_⟩
    · intro hmem
      apply htail
      rw [List.append_assoc]
      exact List.mem_append_right _ hmem
    · rw [hleft, List.append_assoc]
  · cases more with
    | nil =>
      rw [List.append_nil] at hfront
      rw [List.nil_append] at hback
      refine ⟨result.1.buffer.pending, ?_, by rw [hback]⟩
      exact fun hmem => hfeed (List.mem_append_right _ hmem)
    | cons b more =>
      rw [List.cons_append] at hback
      rw [(List.cons.inj hback).1, hfront] at hfeed
      exact absurd (by simp) hfeed

/-- The line feed of the cut line ends it, and what comes behind counts. -/
theorem Absorbed.resumes_of_line {bytes dropped raw rest : Octets} {result : Purge × List Signal}
    (h : Absorbed purge bytes dropped result) (hcut : purge.alignment = .midLine)
    (hkept : purge.buffer.kept = 0) (hlength : purge.buffer.storage.length = Limits.response)
    (hnext : next? (purge.buffer.pending ++ bytes) = some (raw, rest))
    (hfollowing : Notices (rest ++ left)) : Resumes (rest ++ left) left result.2 result.1 := by
  have hsplit := split_of_next? hnext
  have hshort : (split (purge.buffer.pending ++ bytes)).2.length < purge.buffer.storage.length := by
    rw [hsplit, hlength]
    exact hfollowing.length_rest_lt
  have hpending := h.pending_eq hkept hshort
  have halignment := h.alignment_eq
  have hsignals := h.signals_eq
  rw [hsplit] at hpending halignment hsignals
  rw [hcut] at halignment hsignals
  exact Or.inr ⟨halignment.trans (Alignment.behind_aligned _), rest, rfl, hpending, hsignals⟩

/-- Taking in more keeps the rest of the cut line out of what is published, and there is room
again. -/
theorem absorb_resumes {chunk : Chunk purge.buffer.room} (hfollowing : Notices following)
    (h : Resumes following (chunk.val ++ left) signals purge) (hkept : purge.buffer.kept = 0)
    (hlength : purge.buffer.storage.length = Limits.response) :
    Resumes following left (signals ++ (purge.absorb chunk).2) (purge.absorb chunk).1 ∧
      (purge.absorb chunk).1.buffer.kept = 0 ∧
      (purge.absorb chunk).1.buffer.storage.length = Limits.response ∧
      0 < (purge.absorb chunk).1.buffer.room := by
  obtain ⟨dropped, habsorbed⟩ := purge.absorb_absorbed chunk
  have hsize : purge.buffer.kept < purge.buffer.storage.length := by
    rw [hkept, hlength]
    decide
  refine ⟨?_, habsorbed.kept_eq.trans hkept, habsorbed.length_eq.trans hlength,
    habsorbed.room_pos hsize⟩
  rcases h with ⟨hcut, rfl, -, tail, htail, hbytes⟩ | ⟨haligned, consumed, rfl, hpending, rfl⟩
  · rw [← List.append_assoc] at hbytes
    cases hnext : next? (purge.buffer.pending ++ chunk.val) with
    | none => exact habsorbed.resumes_of_unfinished hcut hnext htail hbytes
    | some found =>
      obtain ⟨raw, rest⟩ := found
      have hwhole := next?_append_right hnext left
      rw [hbytes, next?_append htail] at hwhole
      cases hwhole
      exact habsorbed.resumes_of_line hcut hkept hlength hnext hfollowing
  · rw [← List.append_assoc] at hfollowing
    have hsplit := split_append consumed chunk.val
    rw [← hpending] at hsplit
    have hshort : (split (purge.buffer.pending ++ chunk.val)).2.length <
        purge.buffer.storage.length := by
      rw [hlength, ← congrArg Prod.snd hsplit]
      exact hfollowing.length_rest_lt
    have hrest := habsorbed.pending_eq hkept hshort
    have halignment := habsorbed.alignment_eq
    have hsignals := habsorbed.signals_eq
    rw [haligned] at halignment hsignals
    refine Or.inr ⟨halignment.trans (Alignment.behind_aligned _), consumed ++ chunk.val,
      List.append_assoc _ _ _, ?_, ?_⟩
    · rw [hsplit, hrest]
    · rw [hsplit, announced_append, hsignals]
      rfl

end Purge

namespace Sweep

variable {τ : Type}

/-- A look on its way has published nothing, unless it gets rid of a leftover. -/
def Silent (before : List Signal) : Stage → Station τ → Prop
  | .realigning _, _ => True
  | .queued, station | .reading, station | .completing _ _, station => station.published = before

/-- A look that has read something gives the lock back without having published any of it, and
leaves a note if it has read up to the middle of a line. -/
def Withheld (before : List Signal) (result : Result) (station : Station τ) : Prop :=
  ∀ buffer, result = .ok (some buffer) → station.locked = false ∧ station.published = before ∧
    ((split buffer.pending).2 ≠ [] → station.alignment = .midLine)

abbrev Silently (before : List Signal) (outcome : Progress Stage Result × Station τ) : Prop :=
  Course.Meets (Silent before) (Withheld before) outcome

variable {before : List Signal} {station : Station τ}

theorem silently_finish (h : station.published = before) {result : Result}
    (hcomplete : ∀ buffer, result = .ok (some buffer) → (split buffer.pending).2 = []) :
    Silently before (finish station result) := by
  intro buffer hbuffer
  refine ⟨rfl, (Station.published_record rfl).trans h, ?_⟩
  exact fun hcut => absurd (hcomplete buffer hbuffer) hcut

theorem silently_cutShort (h : station.published = before) (buffer : Buffer) :
    Silently before (cutShort station buffer) := by
  intro buffer hbuffer
  exact ⟨rfl, (Station.published_record rfl).trans ((Station.published_record rfl).trans h),
    fun _ => rfl⟩

variable [Transport τ]

theorem silently_queued (timeout : Millis) (h : station.published = before) :
    Silently before (step timeout .queued station) := by
  unfold step
  by_cases hlocked : station.locked
  · simp only [hlocked, if_true]
    exact h
  · simp only [hlocked]
    have hprobed : station.lock.probe.2.published = before :=
      (Station.published_record rfl).trans ((Station.published_record rfl).trans h)
    cases hrun : station.lock.probe with
    | mk ready next =>
      rw [hrun] at hprobed
      match ready with
      | none => exact silently_finish hprobed fun buffer hbuffer => by cases hbuffer
      | some false => exact silently_finish hprobed fun buffer hbuffer => by cases hbuffer
      | some true =>
        by_cases haligned : next.alignment = .aligned
        · simp only [haligned, if_true]
          exact hprobed
        · simp only [haligned, if_false]
          exact trivial

theorem silently_reading (timeout : Millis) (h : station.published = before) :
    Silently before (step timeout .reading station) := by
  have hread := (station.published_read .sweep (Buffer.empty Limits.response).room).trans h
  simp only [step]
  cases hrun : station.read .sweep (Buffer.empty Limits.response).room with
  | mk attempt next =>
    rw [hrun] at hread
    cases attempt with
    | waiting => exact hread
    | failed => exact silently_finish hread fun buffer hbuffer => by cases hbuffer
    | done chunk =>
      by_cases hend : chunk.val = []
      · simp only [hend, if_true]
        refine silently_finish hread ?_
        rintro _ ⟨⟩
        rfl
      · simp only [hend, if_false]
        exact hread

theorem silently_completing (timeout : Millis) (buffer : Buffer) (timer : Timer)
    (h : station.published = before) :
    Silently before (step timeout (.completing buffer timer) station) := by
  unfold step
  by_cases hended : buffer.pending.getLast? = some lineFeed
  · simp only [hended, if_true]
    refine silently_finish h ?_
    rintro _ ⟨⟩
    exact (getLast?_eq_lineFeed_iff.mp hended).2
  · by_cases hfull : buffer.room = 0
    · simp only [hended, hfull, if_true, if_false]
      exact silently_cutShort h buffer
    · simp only [hended, hfull, if_false]
      have hread := (station.published_read .sweep buffer.room).trans h
      cases hrun : station.read .sweep buffer.room with
      | mk attempt next =>
        rw [hrun] at hread
        cases attempt with
        | waiting =>
          cases hask : timer.ask next.now with
          | some later =>
            simp only [hask]
            exact hread
          | none =>
            simp only [hask]
            exact silently_cutShort hread buffer
        | failed => exact silently_cutShort hread buffer
        | done chunk =>
          by_cases hend : chunk.val = []
          · simp only [hend, if_true]
            exact silently_cutShort hread buffer
          · simp only [hend, if_false]
            exact hread

theorem step_silently (timeout : Millis) {stage : Stage} (h : Silent before stage station) :
    Silently before (step timeout stage station) := by
  cases stage with
  | queued => exact silently_queued timeout h
  | realigning realignment =>
    simp only [step]
    cases hrun : realignment.step station with
    | mk progress next =>
      cases progress with
      | moved later => exact trivial
      | waiting later => exact trivial
      | finished result => exact fun buffer hbuffer => by cases hbuffer
  | reading => exact silently_reading timeout h
  | completing buffer timer => exact silently_completing timeout buffer timer h

end Sweep

namespace Listener

variable {τ : Type}

/-- A listener that has read up to the middle of a line publishes what the lines in front of it
announce. -/
theorem swept_of_cut (settings : Settings) {buffer : Buffer} (station : Station τ)
    (hcut : (split buffer.pending).2 ≠ []) :
    (swept settings (.ok (some buffer)) station).2.alignment = station.alignment ∧
      (swept settings (.ok (some buffer)) station).2.published =
        station.published ++ announced (split buffer.pending).1 := by
  have hsome : buffer.filled ≠ 0 := by
    intro hempty
    have hnothing : buffer.pending = [] := by
      rw [← List.length_eq_zero_iff, Buffer.length_pending, hempty, Nat.zero_sub]
    rw [hnothing] at hcut
    exact hcut rfl
  simp only [swept, hsome, if_false, dispatch]
  constructor
  · rw [Station.publishAll_eq]
    rfl
  · have hpublished := (station.setListener .dispatching).published_publishAll .sweep
      (Dispatch.ofBuffer buffer).signals
    have hlistening : (station.setListener .dispatching).published = station.published :=
      Station.published_record rfl
    rw [hlistening] at hpublished
    rw [← dispatch_signals]
    exact (Station.published_record rfl).trans hpublished

/-- After a look that has read up to the middle of a line the lock is free, the stream counts as
cut, and nothing was published but what the lines in front of it announce. -/
theorem follow_of_cut [Transport τ] {settings : Settings} {moments : List Millis}
    {station given : Station τ} {buffer : Buffer}
    (hrun : Course.follow Job.step moments (.poll settings .queued) station =
      (.finished (.polled (.ok (some buffer))), given))
    (hcut : (split buffer.pending).2 ≠ []) :
    given.locked = false ∧ given.alignment = .midLine ∧
      given.published = station.published ++ announced (split buffer.pending).1 := by
  let goes : Job → Station τ → Prop := fun job next =>
    ∃ stage, job = .poll settings stage ∧ Sweep.Silent station.published stage next
  let ends : Job.Outcome → Station τ → Prop := fun outcome next =>
    outcome = .polled (.ok (some buffer)) → next.locked = false ∧ next.alignment = .midLine ∧
      next.published = station.published ++ announced (split buffer.pending).1
  have hstep : ∀ job next, goes job next → Course.Meets goes ends (job.step next) := by
    rintro _ next ⟨stage, rfl, hsilent⟩
    apply Job.meets_of_poll
    apply (Sweep.step_silently settings.responseTimeout hsilent).imp
    · exact fun later _ hlater => ⟨later, rfl, hlater⟩
    · rintro result last hwithheld ⟨⟩
      obtain ⟨hfree, hsilence, hnote⟩ := hwithheld buffer rfl
      obtain ⟨halignment, hpublished⟩ := swept_of_cut settings last hcut
      refine ⟨(swept_keeps settings _ last).2.2.1.trans hfree, halignment.trans (hnote hcut), ?_⟩
      rw [hpublished, hsilence]
  have htime : ∀ job next moment, goes job next → goes job (next.passTo moment) := by
    rintro _ next moment ⟨stage, rfl, hsilent⟩
    refine ⟨stage, rfl, ?_⟩
    cases stage <;> exact hsilent
  have hmeets := Course.follow_meets hstep htime moments (.poll settings .queued) station
    ⟨.queued, rfl, rfl⟩
  rw [hrun] at hmeets
  exact hmeets rfl

end Listener

namespace Exchange

variable {τ : Type}

/-- The rest of the cut line is gone, and so are some of the lines behind it, which were passed on.
The exchange is about to send. -/
def Resumed (call : Call) (request : Octets) (before : List Octets) (published : List Signal)
    (following : Octets) (due : Millis) (holds : Octets → τ → Prop) (stage : Stage)
    (station : Station τ) : Prop :=
  ∃ consumed left, consumed ++ left = following ∧ (split consumed).2 = [] ∧
    stage = startSending call request station ∧ station.alignment = .aligned ∧
    due ≤ station.now ∧ station.published = published ++ announced (split consumed).1 ∧
    Owns before holds left station

section Resumed

variable [Transport τ] {call : Call} {request following : Octets} {before : List Octets}
  {published : List Signal} {holds : Octets → τ → Prop} {due : Millis}

theorem reaches_of_cut_line (hconveys : Conveys due holds) (hfollowing : Notices following)
    (left : Octets) (signals : List Signal) (purge : Purge) (timer : Timer) (station : Station τ)
    (harrived : due ≤ station.now) (hresumes : Purge.Resumes following left signals purge)
    (hpublished : station.published = published ++ signals) (hkept : purge.buffer.kept = 0)
    (hlength : purge.buffer.storage.length = Limits.response) (hroom : 0 < purge.buffer.room)
    (howns : Owns before holds left station) :
    Course.Reaches (step call) (.realigning request { purge, timer }) station
      (Resumed call request before published following due holds) := by
  cases hdone : purge.isDone with
  | true =>
    have hstep : step call (.realigning request { purge, timer }) station =
        (.moved (startSending call request (station.align .aligned)), station.align .aligned) := by
      simp only [step, Realignment.step, hdone, if_true]
    obtain ⟨haligned, hnothing⟩ : purge.alignment = .aligned ∧ purge.buffer.pending = [] := by
      simpa [Purge.isDone] using hdone
    rcases hresumes with ⟨hcut, -⟩ | ⟨-, consumed, hconsumed, hpending, rfl⟩
    · rw [hcut] at haligned
      cases haligned
    · apply Course.reaches_of_moved hstep
      exact Course.reaches_of_goal ⟨consumed, left, hconsumed, hpending.symm.trans hnothing, rfl, rfl,
        harrived, (Station.published_record rfl).trans hpublished, howns.align .aligned⟩
  | false =>
    have hleft := hresumes.left_ne_nil hfollowing.complete hdone
    obtain ⟨chunk, later, next, rfl, hshorter, hnext, hnow, hnews, hstep⟩ :=
      step_of_bytes hconveys hleft harrived hdone hroom howns
    obtain ⟨hresumes', hkept', hlength', hroom'⟩ :=
      Purge.absorb_resumes hfollowing hresumes hkept hlength
    apply Course.reaches_of_moved hstep
    refine reaches_of_cut_line hconveys hfollowing later _ _ timer next (hnow ▸ harrived) hresumes'
      ?_ hkept' hlength' hroom' hnext
    rw [hnews, hpublished, List.append_assoc]
termination_by left.length

/-- An exchange that finds the rest of a cut line on the wire gets rid of it before it sends. -/
theorem reaches_resumed {tail : Octets} (hconveys : Conveys due holds)
    (hfollowing : Notices following) (htail : lineFeed ∉ tail)
    (hrequest : call.request? = some request) {station : Station τ}
    (hfree : station.locked = false) (hcut : station.alignment = .midLine)
    (harrived : due ≤ station.now) (hholds : holds (tail ++ lineFeed :: following) station.transport) :
    Course.Reaches (step call) .queued station
      (Resumed call request station.requests station.published following due holds) := by
  have hunaligned : station.alignment ≠ .aligned := by
    rw [hcut]
    exact nofun
  have hresumes : Purge.Resumes following (tail ++ lineFeed :: following) []
      { alignment := station.alignment, buffer := .empty Limits.response } :=
    Or.inl ⟨hcut, rfl, List.not_mem_nil, tail, htail, rfl⟩
  have hpublished : station.lock.published = station.published ++ [] :=
    (Station.published_record rfl).trans (List.append_nil _).symm
  apply Course.reaches_of_moved (step_of_unaligned hrequest hfree hunaligned)
  exact reaches_of_cut_line hconveys hfollowing _ [] _ _ _ harrived hresumes hpublished rfl
    List.length_replicate room_of_empty ⟨rfl, Station.requests_record rfl, hholds⟩

variable {reply final : Octets} {lines : List Octets} {verdict : Verdict} {within : Millis}

/-- Reports in front of the response do not change what is returned, and are passed on. -/
theorem completes_of_notices {front : Octets} (hfront : Notices front)
    (hechoes : ∀ line ∈ (split front).1, isEcho (Octets.ofText call.command) line = false)
    (hrequest : call.request? = some request)
    (hregular : Regular (Octets.ofText call.command) reply lines final verdict)
    (hlines : (split reply).1 = lines ++ [final]) (hsize : (front ++ reply).length < call.size)
    (hwithin : within ≤ call.timeout) (station : Station τ) (hlocked : station.locked = true)
    (haligned : station.alignment = .aligned)
    (hresponds : Responds request (front ++ reply) within station.now station.transport) :
    Course.Completes (step call) (startSending call request station) station fun result last =>
      result = conclusion verdict (payload (Octets.ofText call.command) lines) ∧
        last.published = station.published ++ announced (split front).1 ++
          reports (Octets.ofText call.command) lines := by
  obtain ⟨stands, hanswers, hsettles⟩ := hresponds
  have hyields := yields_sending (hfront.regular hregular) hsize hwithin station hlocked haligned
    hanswers hsettles
  apply (completes_recites hyields hrequest hlocked haligned).imp
  rintro result last ⟨hyield, hrecites⟩
  have hwhole : (split (front ++ reply)).1 = ((split front).1 ++ lines) ++ [final] := by
    rw [split_append_of_complete hfront.complete, hlines, List.append_assoc]
  have hnone : ((split front).1.filter fun line =>
      !isEcho (Octets.ofText call.command) line) = (split front).1 := by
    rw [List.filter_eq_self]
    intro line hline
    rw [hechoes line hline]
    rfl
  constructor
  · rw [hyield.delivers.1, hfront.payload_append]
  · rw [hyield.published_eq hwhole hrecites, reports_append, reports_eq_announced, hnone,
      List.append_assoc]

end Resumed

/-- A look of the listener reads up to the middle of a line, and the rest of the line is on the wire
with signal reports behind it when an exchange begins. Then nothing of the line is published,
neither by the listener nor by the exchange, however long the rest is and however all this is cut
into reads. The exchange returns what it returns where nothing is on the wire, and passes on what
the reports announce, in order, in front of those in its own response. -/
theorem recovers_behind_cut_line {τ : Type} [Transport τ] (call : Call) (request reply : Octets)
    (lines : List Octets) (final : Octets) (verdict : Verdict)
    (hrequest : call.request? = some request) (hreply : split reply = (lines ++ [final], []))
    (hundecided : Undecided (Octets.ofText call.command) lines)
    (hplain : ∀ line ∈ lines, ¬ Misleading line)
    (hfinal : kind (Octets.ofText call.command) final = .verdict verdict)
    (settings : Settings) (moments : List Millis) (station given : Station τ) (buffer : Buffer)
    (hlook : Course.follow Job.step moments (.poll settings .queued) station =
      (.finished (.polled (.ok (some buffer))), given))
    (hcut : (split buffer.pending).2 ≠ []) (tail following : Octets) (htail : lineFeed ∉ tail)
    (hfollowing : Notices following)
    (hechoes : ∀ line ∈ (split following).1, isEcho (Octets.ofText call.command) line = false)
    (hsize : following.length + reply.length < call.size) (due within : Millis)
    (holds : Octets → τ → Prop) (hconveys : Conveys due holds) (hwithin : within ≤ call.timeout)
    (hresponds : ∀ left now transport, left <:+ following → due ≤ now → holds left transport →
      Responds request (left ++ reply) within now transport) :
    given.published = station.published ++ announced (split buffer.pending).1 ∧
      (∀ waiting : Station τ, waiting.locked = given.locked →
        waiting.alignment = given.alignment → due ≤ waiting.now →
        holds (tail ++ lineFeed :: following) waiting.transport →
        Course.Completes (step call) .queued waiting fun result last =>
          result = conclusion verdict (payload (Octets.ofText call.command) lines) ∧
            last.published = waiting.published ++ announced (split following).1 ++
              reports (Octets.ofText call.command) lines) ∧
      ∀ (transport : τ) (now : Millis), Responds request reply within now transport →
        Course.Completes (step call) .queued { transport, now } fun result last =>
          result = conclusion verdict (payload (Octets.ofText call.command) lines) ∧
            last.published = reports (Octets.ofText call.command) lines := by
  obtain ⟨hlines, hcomplete⟩ := Prod.mk.inj hreply
  have hregular : Regular (Octets.ofText call.command) reply lines final verdict :=
    { complete := hcomplete
      lines_eq := ⟨[], hlines⟩
      undecided := hundecided
      plain := hplain
      final_kind := hfinal }
  obtain ⟨hfree, hmidLine, hlistener⟩ := Listener.follow_of_cut hlook hcut
  refine ⟨hlistener, ?_, ?_⟩
  · intro waiting hlocked halignment harrived hholds
    rw [hfree] at hlocked
    rw [hmidLine] at halignment
    apply (reaches_resumed hconveys hfollowing htail hrequest hlocked halignment harrived
      hholds).completes
    rintro stage next ⟨consumed, left, rfl, hconsumed, rfl, haligned, hnow, hpublished, howns⟩
    have hsplit := split_append_of_complete hconsumed left
    have hleft : (left ++ reply).length < call.size := by
      simp only [List.length_append] at hsize ⊢
      omega
    have hquiet : ∀ line ∈ (split left).1, isEcho (Octets.ofText call.command) line = false := by
      intro line hline
      apply hechoes
      rw [hsplit]
      exact List.mem_append_right _ hline
    have hanswer := hresponds left next.now next.transport (List.suffix_append _ _) hnow
      howns.transport
    apply (completes_of_notices (hfollowing.behind hconsumed) hquiet hrequest hregular hlines hleft
      hwithin next howns.locked haligned hanswer).imp
    rintro result last ⟨hresult, hall⟩
    refine ⟨hresult, ?_⟩
    rw [hall, hpublished, hsplit, announced_append, List.append_assoc waiting.published]
  · intro transport now hanswer
    let fresh : Station τ := { transport, now }
    have hnothing : Notices [] := ⟨rfl, (fun _ h => nomatch h), (fun _ h => nomatch h)⟩
    have hfits : ([] ++ reply : Octets).length < call.size := by
      rw [List.nil_append]
      omega
    have hstep : step call .queued fresh =
        (.moved (startSending call request fresh.lock), fresh.lock) :=
      step_of_aligned hrequest rfl rfl
    apply Course.completes_of_moved hstep
    exact completes_of_notices hnothing (fun _ h => nomatch h) hrequest hregular hlines hfits hwithin
      fresh.lock rfl rfl hanswer

/-- A modem that sends a part of a report, and later these pieces. It accepts one command. -/
def haltingModem (command early : String) (later : List Octets) : Bench.Modem where
  wire :=
    { content := .data (Octets.ofText early), arrival := 0 } ::
      later.map fun piece => { content := .data piece, arrival := 600 }
  rules :=
    [{ request := Octets.ofText command
       replies := [[{ content := .data (Octets.ofText "OK\r\n") }]] }]

/-- A listener looks, and gives up after a while. -/
def afterLook (station : Station Bench.Modem) : Station Bench.Modem :=
  (Course.follow Job.step [0, 0, 0, 500] (.poll { responseTimeout := 500 } .queued) station).2

/-- A look gets the first report, and the second one up to its number. -/
def stationWithinReport : Station Bench.Modem :=
  afterLook
    { transport :=
        { haltingModem "AT" "%CESQ: 50,2\r\n%CESQ: 6"
            [Octets.ofText "4,3\r\n%CESQ: 20", Octets.ofText ",1\r\n"] with
          rules := piecemealRules } }

def bufferWithinReport : Buffer :=
  (Buffer.empty Limits.response).fill ⟨Octets.ofText "%CESQ: 50,2\r\n%CESQ: 6", by
    rw [Buffer.room, Buffer.empty, List.length_replicate]
    decide⟩

set_option maxRecDepth 8000 in
theorem recovers_within_report :
    stationWithinReport.published = [⟨50⟩] ∧
      Course.Completes (step functionalityCall) .queued (stationWithinReport.passTo 600)
        fun result last =>
          result = .ok (Octets.ofText "+CFUN: 1") ∧ last.published = [⟨50⟩, ⟨20⟩] := by
  have hresult : (Course.follow Job.step [0, 0, 0, 500] (.poll { responseTimeout := 500 } .queued)
      { transport :=
          { haltingModem "AT" "%CESQ: 50,2\r\n%CESQ: 6"
              [Octets.ofText "4,3\r\n%CESQ: 20", Octets.ofText ",1\r\n"] with
            rules := piecemealRules } }).1 =
        .finished (.polled (.ok (some bufferWithinReport))) := by cbv
  have hbuffer : split bufferWithinReport.pending =
      ([Octets.ofText "%CESQ: 50,2"], Octets.ofText "%CESQ: 6") := by
    rw [bufferWithinReport, Buffer.pending_fill, Buffer.pending_empty]
    decide
  have hfollowing : Notices (Octets.ofText "%CESQ: 20,1\r\n") := by
    refine ⟨by decide, ?_, ?_⟩ <;> decide
  have hholds : Bench.Modem.Holds 600 piecemealRules
      (Octets.ofText "4,3\r" ++ lineFeed :: Octets.ofText "%CESQ: 20,1\r\n")
      stationWithinReport.transport := by
    have hwire : stationWithinReport.transport.wire =
        [{ content := .data (Octets.ofText "4,3\r\n%CESQ: 20"), arrival := 600 },
          { content := .data (Octets.ofText ",1\r\n"), arrival := 600 }] := by cbv
    have hchunk : stationWithinReport.transport.chunk = none := by cbv
    refine ⟨?_, by cbv, by rw [hchunk]; decide, by cbv, by cbv⟩
    rw [hwire]
    exact .cons (by decide) (Nat.le_refl _) (.cons (by decide) (Nat.le_refl _) .nil)
  have hrecovers := recovers_behind_cut_line functionalityCall (Octets.ofText "AT+CFUN?\r\n")
    (Octets.ofText "+CFUN: 1\r\nOK\r\n") [Octets.ofText "+CFUN: 1"] (Octets.ofText "OK") .accepted
    (by decide) (by decide) functionality_regular.undecided functionality_regular.plain (by decide)
    { responseTimeout := 500 } [0, 0, 0, 500] _ stationWithinReport bufferWithinReport
    (Prod.ext hresult rfl) (by rw [hbuffer]; decide) (Octets.ofText "4,3\r")
    (Octets.ofText "%CESQ: 20,1\r\n") (by decide) hfollowing (by decide) (by decide) 600 20
    (Bench.Modem.Holds 600 piecemealRules) (Bench.Modem.conveys 600 _) (by decide)
    (by
      intro left now modem _ hnow hleft
      have hdue : 600 ≤ now + 20 := Nat.le_add_right_of_le hnow
      have hreplies : Replies (Octets.ofText "AT+CFUN?\r\n")
          (left ++ Octets.ofText "+CFUN: 1\r\nOK\r\n") 20 now
          (Bench.Modem.Holds (now + 20) piecemealRules) modem := by
        apply Bench.Modem.replies_behind hleft hdue (by rfl)
        exact piecemeal_carries now
      exact hreplies.responds)
  have hpublished : stationWithinReport.published = [⟨50⟩] := by
    rw [hrecovers.1, hbuffer]
    cbv
  refine ⟨hpublished, ?_⟩
  apply (hrecovers.2.1 (stationWithinReport.passTo 600) rfl rfl (Nat.le_max_right _ _) hholds).imp
  rintro result last ⟨hresult, hall⟩
  refine ⟨hresult, ?_⟩
  rw [hall]
  have hsame : (stationWithinReport.passTo 600).published = [⟨50⟩] := hpublished
  rw [hsame]
  cbv

def stationBeforeEcho : Station Bench.Modem :=
  afterLook
    { transport := haltingModem "%CESQ: 64,3" "%CESQ: 6"
        [Octets.ofText "4,3\r\n", Octets.ofText "%CESQ: 64,3\r\n"] }

def stationBeforeLongReport : Station Bench.Modem :=
  afterLook
    { transport := haltingModem "AT" "%CESQ: 6"
        [Octets.ofText "4,3\r\n" ++ System.longReport ++ Octets.ofText "\r\n"] }

/-- The listener had a response to get rid of that was given up. -/
def stationAfterLeftover : Station Bench.Modem :=
  afterLook
    { transport := haltingModem "AT" "OK\r\n%CESQ: 6" [Octets.ofText "4,3\r\n"]
      alignment := .awaitingVerdict }

/-- And somebody sends a command later. -/
def sendLater (call : Call) (station : Station Bench.Modem) :
    Progress Stage Result × Station Bench.Modem :=
  Course.follow (step call) (.replicate 8 600) .queued station

set_option maxRecDepth 8000 in
/-- Behind the cut line, a report that repeats the command is not passed on if it comes with the
response, nor is one that fills the buffer for a leftover together with its carriage return. And a
listener that gives up within a line while it gets rid of a leftover leaves no note, so that the
rest of the line is taken for a part of the next response. -/
theorem report_lost_or_tail_returned :
    (stationBeforeEcho.alignment = .midLine ∧
      (sendLater System.reportCall stationBeforeEcho).1 = .finished (.ok []) ∧
      (sendLater System.reportCall stationBeforeEcho).2.published = [] ∧
      announced (split (Octets.ofText "%CESQ: 64,3\r\n")).1 = [⟨64⟩]) ∧
    (stationBeforeLongReport.alignment = .midLine ∧
      (sendLater { System.statusCall with size := 300 } stationBeforeLongReport).1 =
        .finished (.ok []) ∧
      (sendLater { System.statusCall with size := 300 } stationBeforeLongReport).2.published = [] ∧
      System.longReport.length < Limits.response ∧
      announced (split (System.longReport ++ Octets.ofText "\r\n")).1 = [⟨64⟩]) ∧
    (sendLater System.statusCall stationAfterLeftover).1 = .finished (.ok (Octets.ofText "4,3")) ∧
      (sendLater System.statusCall { transport := { haltingModem "AT" "" [] with wire := [] } }).1 =
        .finished (.ok []) := by
  have hlines : (split (System.longReport ++ Octets.ofText "\r\n")).1 = [System.longReport] := by cbv
  refine ⟨⟨by cbv, by cbv, by cbv, by cbv⟩, ⟨by cbv, by cbv, by cbv, by decide, ?_⟩, by cbv, by cbv⟩
  rw [hlines, System.announced_longReport]
  rfl

end Exchange

end CellModem
