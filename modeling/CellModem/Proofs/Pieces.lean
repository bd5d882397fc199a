import Mathlib
import CellModem.Proofs.Cursor

/-!
Line after line, from the front of the bytes on. This comes to an end, no byte is lost or counted
twice on the way, and a stream that comes in pieces has the same lines and the same unfinished rest,
wherever it is cut: between two lines, within one, or between the two bytes of a line end.
-/

namespace CellModem.Line

open Cursor (Found)

/-- What stands in front of a line feed, as a line with the bytes that it takes up. -/
def found (raw : Octets) : Found where
  line := chomp raw
  used := raw.length + 1

/-- The first complete line. -/
def find? (bytes : Octets) : Option Found :=
  (next? bytes).map fun (raw, _) => found raw

/-- Looking for a line again and again, each time behind the bytes of the one before, until there is
none. -/
inductive CutsUp : Octets → List Found → Octets → Prop
  | stop {bytes : Octets} (h : find? bytes = none) : CutsUp bytes [] bytes
  | line {bytes rest : Octets} {first : Found} {later : List Found} (h : find? bytes = some first)
    (hlater : CutsUp (bytes.drop first.used) later rest) : CutsUp bytes (first :: later) rest

/-- Cutting up each piece as it comes in, behind the rest that is carried over from those before. -/
inductive CutsUpPieces : Octets → List Octets → List Found → Octets → Prop
  | done {carried : Octets} : CutsUpPieces carried [] [] carried
  | piece {carried piece left rest : Octets} {pieces : List Octets} {lines later : List Found}
    (h : CutsUp (carried ++ piece) lines left) (hlater : CutsUpPieces left pieces later rest) :
    CutsUpPieces carried (piece :: pieces) (lines ++ later) rest

/-- The bytes of a line, with either of its two terminators. -/
def TakesUp (line : Found) (bytes : Octets) : Prop :=
  bytes.length = line.used ∧
    (bytes = line.line ++ [lineFeed] ∨ bytes = line.line ++ [carriageReturn, lineFeed])

/-- The next line of a buffer is the first one among its unread bytes. -/
theorem find?_pending (buffer : Buffer) :
    find? buffer.pending = buffer.nextLine?.map Buffer.Span.found := by
  cases hspan : buffer.nextLine? with
  | none =>
    rw [find?, Buffer.nextLine?_eq_none hspan]
    rfl
  | some span =>
    obtain ⟨raw, hnext, hused, hline⟩ := Buffer.exists_raw_of_nextLine? hspan
    simp only [find?, hnext, Option.map_some, found, hused, hline]
    rfl

/-- Looking for lines comes to an end, and finds those of a split. -/
theorem cutsUp_splitRaw (bytes : Octets) :
    CutsUp bytes ((splitRaw bytes).1.map found) (splitRaw bytes).2 := by
  induction hlength : bytes.length using Nat.strongRecOn generalizing bytes with
  | ind size ih =>
    rw [splitRaw_eq]
    cases hnext : next? bytes with
    | none => exact .stop (by rw [find?, hnext]; rfl)
    | some pair =>
      obtain ⟨raw, rest⟩ := pair
      have hdrop : bytes.drop (found raw).used = rest := by
        have happend : bytes = (raw ++ [lineFeed]) ++ rest := by
          rw [eq_append_of_next? hnext, List.append_assoc, List.singleton_append]
        rw [happend]
        exact List.drop_left' (List.length_append ..)
      have hshorter : rest.length < size := by
        rw [← hlength, length_of_next? hnext]
        omega
      refine .line (by rw [find?, hnext]; rfl) ?_
      rw [hdrop]
      exact ih rest.length hshorter rest rfl

/-- There is one way to look for lines. -/
theorem CutsUp.unique {bytes rest left : Octets} {lines others : List Found}
    (h : CutsUp bytes lines rest) (hother : CutsUp bytes others left) :
    others = lines ∧ left = rest := by
  induction h generalizing others with
  | stop hnone =>
    cases hother with
    | stop => exact ⟨rfl, rfl⟩
    | line hsome =>
      rw [hnone] at hsome
      cases hsome
  | line hsome _ ih =>
    cases hother with
    | stop hnone =>
      rw [hsome] at hnone
      cases hnone
    | line hfirst hlater =>
      rw [hsome, Option.some.injEq] at hfirst
      subst hfirst
      obtain ⟨rfl, rfl⟩ := ih hlater
      exact ⟨rfl, rfl⟩

theorem cutsUp_iff {bytes rest : Octets} {lines : List Found} :
    CutsUp bytes lines rest ↔
      lines = (splitRaw bytes).1.map found ∧ rest = (splitRaw bytes).2 := by
  constructor
  · exact (cutsUp_splitRaw bytes).unique
  · rintro ⟨rfl, rfl⟩
    exact cutsUp_splitRaw bytes

theorem takesUp_found (raw : Octets) : TakesUp (found raw) (raw ++ [lineFeed]) := by
  refine ⟨List.length_append .., ?_⟩
  simp only [found, chomp]
  split
  case isFalse => exact .inl rfl
  case isTrue hlast =>
    obtain ⟨front, rfl⟩ := List.getLast?_eq_some_iff.mp hlast
    refine .inr ?_
    rw [List.dropLast_concat, List.append_assoc]
    rfl

theorem sum_used (raws : List Octets) :
    ((raws.map found).map (·.used)).sum = (raws.flatMap fun raw => raw ++ [lineFeed]).length := by
  induction raws with
  | nil => rfl
  | cons raw raws ih =>
    simp only [List.map_cons, List.sum_cons, List.flatMap_cons, List.length_append, ih]
    rfl

/-- What is carried over makes up one stream with the pieces behind it. -/
theorem cutsUpPieces_of_carried {carried : Octets} (h : lineFeed ∉ carried)
    (pieces : List Octets) :
    CutsUpPieces carried pieces ((splitRaw (carried ++ pieces.flatten)).1.map found)
      (splitRaw (carried ++ pieces.flatten)).2 := by
  induction pieces generalizing carried with
  | nil =>
    have hcarried := splitRaw_append_of_notMem h []
    rw [List.flatten_nil, hcarried]
    simp only [splitRaw, List.append_nil]
    exact .done
  | cons piece pieces ih =>
    have hrest := ih (lineFeed_notMem_rest (carried ++ piece))
    have hstep := CutsUpPieces.piece (cutsUp_splitRaw (carried ++ piece)) hrest
    rw [← List.map_append] at hstep
    rw [List.flatten_cons, ← List.append_assoc, splitRaw_append (carried ++ piece)]
    exact hstep

theorem CutsUpPieces.unique {carried rest left : Octets} {pieces : List Octets}
    {lines others : List Found} (h : CutsUpPieces carried pieces lines rest)
    (hother : CutsUpPieces carried pieces others left) : others = lines ∧ left = rest := by
  induction h generalizing others with
  | done =>
    cases hother with
    | done => exact ⟨rfl, rfl⟩
  | piece hcuts _ ih =>
    cases hother with
    | piece hcutsOther hlater =>
      obtain ⟨rfl, rfl⟩ := hcuts.unique hcutsOther
      obtain ⟨rfl, rfl⟩ := ih hlater
      exact ⟨rfl, rfl⟩

/-- Looking for line after line comes to an end, and finds the same whoever does it. The bytes that
the lines take up and those that are left make up all bytes, no line and no rest has a line feed in
it, and each line takes up its own bytes with a terminator of one byte or two behind them. A stream
that is cut up piece by piece, each piece behind the rest of those before it, yields the lines and
the rest of the whole stream, however it comes in pieces. It is in this way that a buffer looks for
its next line. -/
theorem cutsUp_loses_nothing :
    (∀ bytes : Octets, ∃ lines rest, CutsUp bytes lines rest ∧
      (∀ others left, CutsUp bytes others left → others = lines ∧ left = rest) ∧
      (lines.map (·.used)).sum + rest.length = bytes.length ∧
      (∀ line ∈ lines, lineFeed ∉ line.line) ∧ lineFeed ∉ rest ∧
      (∃ taken : List Octets, bytes = taken.flatten ++ rest ∧ List.Forall₂ TakesUp lines taken) ∧
      split bytes = (lines.map (·.line), rest)) ∧
    (∀ (pieces : List Octets) (lines : List Found) (rest : Octets),
      CutsUpPieces [] pieces lines rest ↔ CutsUp pieces.flatten lines rest) ∧
    ∀ buffer : Buffer, find? buffer.pending = buffer.nextLine?.map Buffer.Span.found := by
  refine ⟨fun bytes => ?whole, fun pieces lines rest => ?pieces, find?_pending⟩
  case whole =>
    have hcuts := cutsUp_splitRaw bytes
    have hjoin := splitRaw_join bytes
    refine ⟨_, _, hcuts, fun _ _ => hcuts.unique, ?_, ?_, lineFeed_notMem_rest bytes, ?_, ?_⟩
    · rw [sum_used, ← List.length_append, hjoin]
    · intro line hline
      obtain ⟨raw, hraw, rfl⟩ := List.mem_map.mp hline
      intro hfeed
      have hmem : lineFeed ∈ raw.take (chomp raw).length := by rwa [take_length_chomp]
      exact lineFeed_notMem_line hraw (List.mem_of_mem_take hmem)
    · refine ⟨(splitRaw bytes).1.map fun raw => raw ++ [lineFeed], ?_, ?_⟩
      · rw [← List.flatMap_def, hjoin]
      · rw [List.forall₂_map_left_iff, List.forall₂_map_right_iff, List.forall₂_same]
        exact fun raw _ => takesUp_found raw
    · rw [List.map_map]
      rfl
  case pieces =>
    have hpieces := cutsUpPieces_of_carried List.not_mem_nil pieces
    rw [List.nil_append] at hpieces
    rw [cutsUp_iff]
    constructor
    · exact hpieces.unique
    · rintro ⟨rfl, rfl⟩
      exact hpieces

end CellModem.Line
