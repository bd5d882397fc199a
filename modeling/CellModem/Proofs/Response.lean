import CellModem.Proofs.Reception

/-!
Responses that read the same however they are cut. A final result may lack its line end, so a line
that begins like one could be taken for it when a read ends there. Without such lines in front of
the final result, every part of the response that ends it ends it in the same way.
-/

namespace CellModem

namespace Octets

theorem head?_trim {b : UInt8} {bytes : Octets} (h : Text.isAsciiBlank b.toNat = false) :
    (trim (b :: bytes)).head? = some b := by
  have hstart : (b :: bytes).dropWhile (fun b : UInt8 => Text.isAsciiBlank b.toNat) = b :: bytes :=
    List.dropWhile_cons_of_neg (by simp [h])
  simp only [trim, hstart, List.reverse_cons, List.dropWhile_append]
  split
  · simp [h]
  · simp

end Octets

namespace Line

/-- A line that begins like a final result which may lack its line end. -/
def Misleading (line : Octets) : Prop :=
  Octets.ofText "OK" <+: line ∨ Octets.ofText "ERROR" <+: line

/-- A response that ends with `verdict` in the line `final`, behind lines none of which begins like
a final result. -/
structure Regular (command stream : Octets) (lines : List Octets) (final : Octets)
    (verdict : Verdict) : Prop where
  complete : (split stream).2 = []
  lines_eq : ∃ later, (split stream).1 = lines ++ final :: later
  undecided : Undecided command lines
  plain : ∀ line ∈ lines, ¬ Misleading line
  final_kind : kind command final = .verdict verdict

theorem Regular.concludes {command stream final : Octets} {lines : List Octets} {v : Verdict}
    (h : Regular command stream lines final v) : Concludes command stream lines v := by
  obtain ⟨later, hlines⟩ := h.lines_eq
  exact ⟨h.undecided, Or.inl ⟨final, later, hlines, h.final_kind⟩⟩

theorem verdict?_trim_of_kind {command line : Octets} {v : Verdict}
    (h : kind command line = .verdict v) : verdict? line.trim = some v := by
  unfold kind at h
  simp only at h
  split at h
  · cases h
  · split at h
    · cases h
    · split at h
      · cases h
      · split at h
        case h_1 found hfound =>
          cases h
          exact hfound
        case h_2 => cases h

/-- A final result is `OK`, `ERROR` or an error that says more, which starts with a plus sign. -/
theorem verdict?_cases {line : Octets} {v : Verdict} (h : verdict? line = some v) :
    line = Octets.ofText "OK" ∧ v = .accepted ∨ line = Octets.ofText "ERROR" ∧ v = .refused ∨
      line.head? = some 43 ∧ v = .refused := by
  have hstarts : ∀ mark : Octets, mark.head? = some 43 → mark.isPrefixOf line = true →
      line.head? = some 43 := by
    intro mark hmark hline
    obtain ⟨rest, rfl⟩ := List.isPrefixOf_iff_prefix.mp hline
    rw [List.head?_append, hmark]
    rfl
  unfold verdict? at h
  split at h
  case isTrue hok =>
    cases h
    exact Or.inl ⟨hok, rfl⟩
  case isFalse =>
    split at h
    case isTrue herror =>
      cases h
      exact Or.inr (Or.inl ⟨herror, rfl⟩)
    case isFalse =>
      split at h
      case isTrue hcme =>
        cases h
        exact Or.inr (Or.inr ⟨hstarts _ (by decide) hcme, rfl⟩)
      case isFalse =>
        split at h
        case isTrue hcms =>
          cases h
          exact Or.inr (Or.inr ⟨hstarts _ (by decide) hcms, rfl⟩)
        case isFalse => cases h

/-- A line whose first bytes are those of `OK` or `ERROR` is that final result if it is any. -/
theorem trim_of_misleading {command line : Octets} {v : Verdict}
    (hkind : kind command line = .verdict v) :
    (Octets.ofText "OK" <+: line → line.trim = Octets.ofText "OK" ∧ v = .accepted) ∧
      (Octets.ofText "ERROR" <+: line → line.trim = Octets.ofText "ERROR" ∧ v = .refused) := by
  have hcases := verdict?_cases (verdict?_trim_of_kind hkind)
  constructor
  · rintro ⟨more, rfl⟩
    have hhead : (Octets.ofText "OK" ++ more).trim.head? = some 79 :=
      Octets.head?_trim (by decide)
    rcases hcases with hok | ⟨herror, -⟩ | ⟨hplus, -⟩
    · exact hok
    · rw [herror] at hhead
      cases hhead
    · rw [hplus] at hhead
      cases hhead
  · rintro ⟨more, rfl⟩
    have hhead : (Octets.ofText "ERROR" ++ more).trim.head? = some 69 :=
      Octets.head?_trim (by decide)
    rcases hcases with ⟨hok, -⟩ | herror | ⟨hplus, -⟩
    · rw [hok] at hhead
      cases hhead
    · exact herror
    · rw [hplus] at hhead
      cases hhead

theorem openVerdict?_cases {rest : Octets} {v : Verdict} (hfeed : lineFeed ∉ rest)
    (h : openVerdict? rest = some v) :
    (rest = Octets.ofText "OK" ∧ v = .accepted) ∨
      (rest = Octets.ofText "ERROR" ∧ v = .refused) := by
  unfold openVerdict? at h
  split at h
  case h_1 => exact absurd (by simp [lineFeed]) hfeed
  case h_2 =>
    simp only at h
    split at h
    case isTrue hok =>
      cases h
      exact Or.inl ⟨hok, rfl⟩
    case isFalse =>
      split at h
      case isTrue herror =>
        cases h
        exact Or.inr ⟨herror, rfl⟩
      case isFalse => cases h

/-- A line that starts within a piece of the stream begins with what that piece has of it. -/
theorem splitRaw_append_cons {rest more raw : Octets} {raws : List Octets}
    (hfeed : lineFeed ∉ rest) (h : (splitRaw (rest ++ more)).1 = raw :: raws) :
    ∃ tail, raw = rest ++ tail := by
  induction rest generalizing raw raws with
  | nil => exact ⟨raw, rfl⟩
  | cons b rest ih =>
    obtain ⟨hb, hrest⟩ : lineFeed ≠ b ∧ lineFeed ∉ rest := by simpa using hfeed
    cases hlines : (splitRaw (rest ++ more)).1 with
    | nil => simp [splitRaw, Ne.symm hb, hlines] at h
    | cons line lines =>
      obtain ⟨tail, rfl⟩ := ih hrest hlines
      simp only [List.cons_append, splitRaw, Ne.symm hb, hlines, if_false, List.cons.injEq] at h
      exact ⟨tail, h.1.symm⟩

theorem chomp_append {rest : Octets} (tail : Octets) (h : rest.getLast? ≠ some carriageReturn) :
    ∃ more, chomp (rest ++ tail) = rest ++ more := by
  cases htail : tail with
  | nil => exact ⟨[], by simp [chomp, h]⟩
  | cons b bytes =>
    unfold chomp
    split
    · exact ⟨(b :: bytes).dropLast, List.dropLast_append_of_ne_nil (by simp)⟩
    · exact ⟨b :: bytes, rfl⟩

theorem prefix_of_split_append {rest more line : Octets} {lines : List Octets}
    (hfeed : lineFeed ∉ rest) (hreturn : rest.getLast? ≠ some carriageReturn)
    (h : (split (rest ++ more)).1 = line :: lines) : rest <+: line := by
  cases hraws : (splitRaw (rest ++ more)).1 with
  | nil => simp [split, hraws] at h
  | cons raw raws =>
    obtain ⟨tail, rfl⟩ := splitRaw_append_cons hfeed hraws
    obtain ⟨more', hline⟩ := chomp_append tail hreturn
    simp only [split, hraws, List.map_cons, List.cons.injEq] at h
    rw [← h.1, hline]
    exact List.prefix_append _ _

/-- The line that begins with an unfinished final result is this final result, if it is any. -/
theorem line_of_openVerdict? {rest more line : Octets} {lines : List Octets} {v : Verdict}
    (hfeed : lineFeed ∉ rest) (hopen : openVerdict? rest = some v)
    (h : (split (rest ++ more)).1 = line :: lines) :
    Misleading line ∧ ∀ command w, kind command line = .verdict w → v = w := by
  rcases openVerdict?_cases hfeed hopen with ⟨rfl, rfl⟩ | ⟨rfl, rfl⟩
  · have hstarts := prefix_of_split_append hfeed (by decide) h
    exact ⟨Or.inl hstarts, fun command w hkind => ((trim_of_misleading hkind).1 hstarts).2.symm⟩
  · have hstarts := prefix_of_split_append hfeed (by decide) h
    exact ⟨Or.inr hstarts, fun command w hkind => ((trim_of_misleading hkind).2 hstarts).2.symm⟩

/-- Two ways to cut a list at an element that does not occur in front of the other cut. -/
theorem append_cons_unique {α : Type} {front front' back back' : List α} {a b : α}
    (h : front ++ a :: back = front' ++ b :: back') (ha : a ∉ front') (hb : b ∉ front) :
    front = front' ∧ a = b := by
  rcases List.append_eq_append_iff.mp h with ⟨between, hfront, hback⟩ | ⟨between, hfront, hback⟩
  · cases between with
    | nil =>
      rw [List.append_nil] at hfront
      exact ⟨hfront.symm, (List.cons.inj hback).1⟩
    | cons c between =>
      obtain ⟨rfl, -⟩ := List.cons.inj hback
      exact absurd (by simp [hfront]) ha
  · cases between with
    | nil =>
      rw [List.append_nil] at hfront
      exact ⟨hfront, (List.cons.inj hback).1.symm⟩
    | cons c between =>
      obtain ⟨rfl, -⟩ := List.cons.inj hback
      exact absurd (by simp [hfront]) hb

/-- The data lines and the rest take up no more room than the bytes they came with. -/
theorem length_body_add_le (command stream : Octets) :
    (body command (split stream).1).length + (split stream).2.length ≤ stream.length := by
  have hraws : ∀ raws : List Octets, (body command (raws.map chomp)).length ≤
      (raws.flatMap fun raw => raw ++ [lineFeed]).length := by
    intro raws
    induction raws with
    | nil => exact Nat.le_refl _
    | cons raw raws ih =>
      have hline := length_chomp_le raw
      by_cases hdata : kind command (chomp raw) = .data
      · rw [List.map_cons, body_cons_of_eq_data hdata, List.flatMap_cons]
        simp only [List.length_append]
        omega
      · rw [List.map_cons, body_cons_of_ne_data hdata, List.flatMap_cons]
        simp only [List.length_append]
        omega
  have hjoin := congrArg List.length (splitRaw_join stream)
  have hbody := hraws (splitRaw stream).1
  rw [List.length_append] at hjoin
  simp only [split]
  omega

/-- Whatever front part of a regular response already ends, it ends as the whole does, behind the
same lines. -/
theorem Regular.eq_of_concludes {command stream final : Octets} {lines : List Octets} {v : Verdict}
    (h : Regular command stream lines final v) {early rest : Octets} {lines' : List Octets}
    {w : Verdict} (hstream : early ++ rest = stream)
    (hconcludes : Concludes command early lines' w) : lines' = lines ∧ w = v := by
  obtain ⟨later, hlines⟩ := h.lines_eq
  have hcomplete := h.complete
  rw [← hstream, split_append] at hlines hcomplete
  have hfinal : final ∉ lines' := fun hmem => hconcludes.1 final hmem v h.final_kind
  rcases hconcludes.2 with ⟨final', later', hearly, hkind⟩ | ⟨hearly, hopen⟩
  · have hfinal' : final' ∉ lines := fun hmem => h.undecided final' hmem w hkind
    rw [hearly, List.append_assoc, List.cons_append] at hlines
    obtain ⟨rfl, rfl⟩ := append_cons_unique hlines hfinal' hfinal
    have hsame := hkind.symm.trans h.final_kind
    exact ⟨rfl, by cases hsame; rfl⟩
  · have hfeed : lineFeed ∉ (split early).2 := lineFeed_notMem_rest early
    rw [hearly] at hlines
    cases hnext : (split ((split early).2 ++ rest)).1 with
    | nil =>
      simp only [hnext, List.append_nil] at hlines
      exact absurd (hlines ▸ List.mem_append_right lines (List.mem_cons_self ..)) hfinal
    | cons next more =>
      obtain ⟨hmisleading, hsame⟩ := line_of_openVerdict? hfeed hopen hnext
      rw [hnext] at hlines
      have hplain : next ∉ lines := fun hmem => h.plain next hmem hmisleading
      obtain ⟨rfl, rfl⟩ := append_cons_unique hlines hplain hfinal
      exact ⟨rfl, hsame command v h.final_kind⟩

end Line

end CellModem
