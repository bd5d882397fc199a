import Mathlib.Data.List.TakeWhile
import CellModem.Listener
import CellModem.Proofs.Reception

/-!
What the signal reports among the lines of a stream announce. Several loops go through lines, each
for a purpose of its own. All of them pass on what the reports among their lines announce, in the
order of the lines.
-/

namespace CellModem

namespace Line

/-- What the signal reports among these lines announce. White space at either end of a line does not
count, and a malformed report announces nothing. -/
def announced (lines : List Octets) : List Signal :=
  (lines.filter fun line => isNotice line.trim).filterMap Signal.ofLine?

/-- The line repeats the command. -/
def isEcho (command line : Octets) : Bool :=
  !command.isEmpty && line.trim == command

/-- The line is a final result of the command. -/
def isFinal (command line : Octets) : Bool :=
  match kind command line with
  | .verdict _ => true
  | .blank | .echo | .notice | .data => false

/-- What is announced while a response comes in. Up to the final result, a line that repeats the
command is not taken for a report. -/
def answered (command : Octets) (lines : List Octets) : List Signal :=
  announced ((lines.takeWhile fun line => !isFinal command line).filter fun line =>
      !isEcho command line) ++
    announced (lines.dropWhile fun line => !isFinal command line)

theorem announced_append (first second : List Octets) :
    announced (first ++ second) = announced first ++ announced second := by
  simp only [announced, List.filter_append, List.filterMap_append]

theorem announced_cons_of_isNotice {line : Octets} (lines : List Octets)
    (h : isNotice line.trim = true) :
    announced (line :: lines) = (Signal.ofLine? line).toList ++ announced lines := by
  simp only [announced, List.filter_cons, h, if_true, List.filterMap_cons]
  cases Signal.ofLine? line <;> rfl

theorem announced_cons_of_not_isNotice {line : Octets} (lines : List Octets)
    (h : isNotice line.trim = false) : announced (line :: lines) = announced lines := by
  simp [announced, h]

theorem kind_eq (command line : Octets) :
    kind command line =
      if line.trim.isEmpty then .blank
      else if isEcho command line then .echo
      else if isNotice line.trim then .notice
      else
        match verdict? line.trim with
        | some v => .verdict v
        | none => .data :=
  rfl

/-- A line counts as a report while a command runs unless it repeats the command. -/
theorem kind_eq_notice_iff {command line : Octets} :
    kind command line = .notice ↔ isNotice line.trim = true ∧ isEcho command line = false := by
  have hempty : isNotice [] = false := by decide
  rw [kind_eq]
  cases hblank : line.trim.isEmpty with
  | true => simp [List.isEmpty_iff.mp hblank, hempty]
  | false =>
    cases isEcho command line with
    | true => simp
    | false =>
      cases isNotice line.trim with
      | true => simp
      | false => cases verdict? line.trim <;> simp

/-- And while no command runs, without exception. -/
theorem idleKind_eq_notice_iff {line : Octets} :
    idleKind line = .notice ↔ isNotice line.trim = true := by
  rw [idleKind, kind_eq_notice_iff]
  exact and_iff_left rfl

theorem isNotice_of_idleKind_ne {line : Octets} (h : idleKind line ≠ .notice) :
    isNotice line.trim = false := by
  rw [← Bool.not_eq_true]
  exact fun hnotice => h (idleKind_eq_notice_iff.mpr hnotice)

theorem reports_eq_announced (command : Octets) (lines : List Octets) :
    reports command lines = announced (lines.filter fun line => !isEcho command line) := by
  induction lines with
  | nil => rfl
  | cons line lines ih =>
    cases hecho : isEcho command line with
    | true =>
      have hkind : kind command line ≠ .notice := by
        intro hnotice
        rw [(kind_eq_notice_iff.mp hnotice).2] at hecho
        cases hecho
      rw [reports_cons_of_ne_notice hkind, ih, List.filter_cons_of_neg (by simp [hecho])]
    | false =>
      rw [List.filter_cons_of_pos (by simp [hecho])]
      cases hnotice : isNotice line.trim with
      | true =>
        have hkind : kind command line = .notice := kind_eq_notice_iff.mpr ⟨hnotice, hecho⟩
        rw [announced_cons_of_isNotice _ hnotice, ← ih]
        simp [reports, hkind]
      | false =>
        have hkind : kind command line ≠ .notice := by
          intro hkind
          rw [(kind_eq_notice_iff.mp hkind).1] at hnotice
          cases hnotice
        rw [reports_cons_of_ne_notice hkind, announced_cons_of_not_isNotice _ hnotice, ih]

theorem isNotice_of_kind {command line : Octets} {v : Verdict}
    (h : kind command line = .verdict v) : isNotice line.trim = false := by
  rw [kind_eq] at h
  cases hnotice : isNotice line.trim with
  | false => rfl
  | true =>
    rw [hnotice] at h
    split at h
    · cases h
    · split at h <;> cases h

theorem isFinal_of_kind {command line : Octets} {v : Verdict}
    (h : kind command line = .verdict v) : isFinal command line = true := by
  simp only [isFinal, h]

theorem isFinal_eq_false {command line : Octets} (h : ∀ v, kind command line ≠ .verdict v) :
    isFinal command line = false := by
  unfold isFinal
  cases hkind : kind command line with
  | verdict v => exact absurd hkind (h v)
  | blank => rfl
  | echo => rfl
  | notice => rfl
  | data => rfl

theorem Undecided.not_isFinal {command : Octets} {lines : List Octets}
    (h : Undecided command lines) : ∀ line ∈ lines, (!isFinal command line) = true := by
  intro line hline
  rw [isFinal_eq_false (h line hline)]
  rfl

/-- As long as there is no final result, echoes do not count anywhere. -/
theorem answered_of_undecided {command : Octets} {lines : List Octets}
    (h : Undecided command lines) : answered command lines = reports command lines := by
  have hall := h.not_isFinal
  have hfront : lines.takeWhile (fun line => !isFinal command line) = lines :=
    List.takeWhile_eq_self_iff.mpr hall
  have hback : lines.dropWhile (fun line => !isFinal command line) = [] :=
    List.dropWhile_eq_nil_iff.mpr hall
  rw [answered, hfront, hback, reports_eq_announced]
  exact List.append_nil _

/-- Behind the final result every report counts. -/
theorem answered_of_final {command final : Octets} {lines : List Octets} {v : Verdict}
    (h : Undecided command lines) (hfinal : kind command final = .verdict v)
    (later : List Octets) :
    answered command (lines ++ final :: later) = reports command lines ++ announced later := by
  have hall := h.not_isFinal
  have hstop := isFinal_of_kind hfinal
  have hfront : (lines ++ final :: later).takeWhile (fun line => !isFinal command line) = lines := by
    rw [List.takeWhile_append_of_pos hall]
    simp [hstop]
  have hback : (lines ++ final :: later).dropWhile (fun line => !isFinal command line) =
      final :: later := by
    rw [List.dropWhile_append_of_pos hall]
    simp [hstop]
  rw [answered, hfront, hback, announced_cons_of_not_isNotice later (isNotice_of_kind hfinal),
    reports_eq_announced]

theorem reports_append (command : Octets) (first second : List Octets) :
    reports command (first ++ second) = reports command first ++ reports command second := by
  simp only [reports, List.flatMap_append]

end Line

open Line

namespace Buffer

variable {buffer : Buffer} {span : buffer.Span}

theorem announced_of_notice (hspan : buffer.nextLine? = some span)
    (hkind : idleKind (buffer.line span) = .notice) :
    announced (split buffer.pending).1 =
      (Signal.ofLine? (buffer.line span)).toList ++
        announced (split (buffer.skip span).pending).1 := by
  rw [split_of_nextLine? hspan]
  exact announced_cons_of_isNotice _ (idleKind_eq_notice_iff.mp hkind)

theorem announced_of_other (hspan : buffer.nextLine? = some span)
    (hkind : idleKind (buffer.line span) ≠ .notice) :
    announced (split buffer.pending).1 = announced (split (buffer.skip span).pending).1 := by
  rw [split_of_nextLine? hspan]
  exact announced_cons_of_not_isNotice _ (isNotice_of_idleKind_ne hkind)

end Buffer

namespace Reception

theorem drain_signals (buffer : Buffer) :
    (drain buffer).1 = announced (split buffer.pending).1 := by
  fun_induction drain buffer with
  | case1 buffer hnone =>
    rw [Buffer.split_of_nextLine?_eq_none hnone]
    rfl
  | case2 buffer span hspan later left hdrain hkind ih =>
    rw [hdrain] at ih
    rw [Buffer.announced_of_notice hspan hkind, ← ih]
  | case3 buffer span hspan later left hdrain hkind ih
  | case4 buffer span hspan later left hdrain hkind ih
  | case5 buffer span hspan later left hdrain v hkind ih
  | case6 buffer span hspan later left hdrain hkind ih =>
    rw [hdrain] at ih
    rw [Buffer.announced_of_other hspan (by simp [hkind]), ← ih]

/-- One more read passes on what the lines announce that it completes. -/
theorem answered_of_absorb {command stream : Octets} {buffer : Buffer}
    {chunk : Chunk buffer.room} {outcome : Outcome} {signals : List Signal}
    (h : Taken command stream buffer)
    (habsorb : absorb command buffer chunk = (outcome, signals)) :
    answered command (split (stream ++ chunk.val)).1 =
      answered command (split stream).1 ++ signals := by
  obtain ⟨lines, hlines, -, hsignals, hrest⟩ := digest_lines command (buffer.fill chunk)
  have hsplit := split_append_chunk h chunk
  have hbefore := answered_of_undecided h.unended.1
  have hall := h.unended.1.append hlines
  unfold absorb at habsorb
  cases hdigest : digest command (buffer.fill chunk) with
  | mk left found verdict =>
    rw [hdigest] at hsignals hrest habsorb
    change found = reports command lines at hsignals
    rcases hrest with ⟨hnone, hgone⟩ | ⟨final, v, hsome, hkind, hgone⟩
    · cases hnone
      have hpassed : signals = found := by
        cases hopen : openVerdict? left.pending with
        | some v => simpa [hopen] using (congrArg Prod.snd habsorb).symm
        | none => simpa [hopen] using (congrArg Prod.snd habsorb).symm
      rw [hsplit, hgone, answered_of_undecided hall, hbefore, reports_append, hpassed, hsignals]
    · cases hsome
      have hpassed : signals = found ++ (drain left).1 := (congrArg Prod.snd habsorb).symm
      rw [hsplit, hgone, ← List.append_assoc, answered_of_final hall hkind, hbefore,
        reports_append, hpassed, drain_signals, hsignals, List.append_assoc]

end Reception

namespace Listener

/-- A listener hands on what the complete lines of a sweep announce. -/
theorem dispatch_signals (buffer : Buffer) :
    (Dispatch.ofBuffer buffer).signals = announced (split buffer.pending).1 := by
  fun_induction Dispatch.ofBuffer buffer with
  | case1 buffer hnone =>
    rw [Buffer.split_of_nextLine?_eq_none hnone]
    rfl
  | case3 buffer span hspan later hkind signal hsignal ih =>
    rw [Buffer.announced_of_notice hspan hkind, hsignal, ← ih]
    rfl
  | case4 buffer span hspan later hkind hsignal ih =>
    rw [Buffer.announced_of_notice hspan hkind, hsignal, ← ih]
    rfl
  | case2 buffer span hspan later hkind ih
  | case5 buffer span hspan later hkind ih
  | case6 buffer span hspan later verdict hkind ih
  | case7 buffer span hspan later hkind ih =>
    rw [Buffer.announced_of_other hspan (by simp [hkind]), ← ih]

end Listener

end CellModem
