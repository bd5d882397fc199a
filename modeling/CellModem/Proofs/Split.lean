import CellModem.Line

/-!
Cutting a byte stream into lines is the same whether it is done at once or piece by piece: the
unfinished rest of one piece goes in front of the next. Nothing is lost on the way.
-/

namespace CellModem.Line

theorem splitRaw_append (first second : Octets) :
    splitRaw (first ++ second) =
      ((splitRaw first).1 ++ (splitRaw ((splitRaw first).2 ++ second)).1,
        (splitRaw ((splitRaw first).2 ++ second)).2) := by
  induction first with
  | nil => simp [splitRaw]
  | cons b bytes ih =>
    by_cases hfeed : b = lineFeed
    · simp only [List.cons_append, splitRaw, hfeed, if_true, ih]
    · cases hlines : (splitRaw bytes).1 with
      | nil => simp [splitRaw, hfeed, hlines, ih]
      | cons line lines => simp [splitRaw, hfeed, hlines, ih]

/-- The lines of a stream that comes in two pieces are those of the first piece, then those of its
unfinished rest together with the second one. -/
theorem split_append (first second : Octets) :
    split (first ++ second) =
      ((split first).1 ++ (split ((split first).2 ++ second)).1,
        (split ((split first).2 ++ second)).2) := by
  simp only [split, splitRaw_append first second, List.map_append]

theorem split_of_next?_eq_none {bytes : Octets} (h : next? bytes = none) :
    split bytes = ([], bytes) := by
  rw [split, splitRaw_eq, h]
  rfl

theorem split_of_next? {bytes raw rest : Octets} (h : next? bytes = some (raw, rest)) :
    split bytes = (chomp raw :: (split rest).1, (split rest).2) := by
  rw [split, splitRaw_eq, h]
  rfl

/-- Lines and the rest make up the stream again, once each line has its line feed back. -/
theorem splitRaw_join (bytes : Octets) :
    (splitRaw bytes).1.flatMap (fun raw => raw ++ [lineFeed]) ++ (splitRaw bytes).2 = bytes := by
  induction bytes with
  | nil => rfl
  | cons b bytes ih =>
    by_cases hfeed : b = lineFeed
    · simp only [splitRaw, hfeed, if_true, List.flatMap_cons, List.nil_append,
        List.cons_append, ih]
    · cases hlines : (splitRaw bytes).1 with
      | nil =>
        rw [hlines] at ih
        simpa [splitRaw, hfeed, hlines] using ih
      | cons line lines =>
        rw [hlines] at ih
        simpa [splitRaw, hfeed, hlines] using ih

theorem lineFeed_notMem_rest (bytes : Octets) : lineFeed ∉ (splitRaw bytes).2 := by
  induction bytes with
  | nil => simp [splitRaw]
  | cons b bytes ih =>
    by_cases hfeed : b = lineFeed
    · simpa [splitRaw, hfeed] using ih
    · cases hlines : (splitRaw bytes).1 with
      | nil => simpa [splitRaw, hfeed, hlines, Ne.symm hfeed] using ih
      | cons line lines => simpa [splitRaw, hfeed, hlines] using ih

theorem lineFeed_notMem_line {bytes raw : Octets} (h : raw ∈ (splitRaw bytes).1) :
    lineFeed ∉ raw := by
  induction bytes generalizing raw with
  | nil => simp [splitRaw] at h
  | cons b bytes ih =>
    by_cases hfeed : b = lineFeed
    · simp only [splitRaw, hfeed, if_true, List.mem_cons] at h
      rcases h with rfl | hlater
      · exact List.not_mem_nil
      · exact ih hlater
    · cases hlines : (splitRaw bytes).1 with
      | nil => simp [splitRaw, hfeed, hlines] at h
      | cons line lines =>
        simp only [splitRaw, hfeed, hlines, if_false, List.mem_cons] at h
        rcases h with rfl | hlater
        · have hline : lineFeed ∉ line := ih (by simp [hlines])
          simpa [Ne.symm hfeed] using hline
        · exact ih (by simp [hlines, hlater])

end CellModem.Line
