import CellModem.Proofs.Rendering

/-!
The exchange of characters in pairs. It succeeds for the ASCII texts that fit, keeps their length,
moves each character of a complete pair by one place and leaves a last one alone; a second exchange
takes it back. Pushing the characters one by one, with a look at the room before each of them, comes
to the same.
-/

namespace CellModem.Code

/-- A text with one character more, as long as there is room for it. -/
def push? (room : Nat) (text : String) (c : Char) : Option String :=
  if text.utf8ByteSize + c.utf8Size ≤ room then some (text.push c) else none

/-- Push the characters pair by pair, the second one of each pair first. -/
def pushPairs? (room : Nat) (text : String) : List Char → Option String
  | a :: b :: rest => do
    let text ← push? room text b
    let text ← push? room text a
    pushPairs? room text rest
  | [a] => push? room text a
  | [] => some text

/-- The exchange character by character. The room is looked at for each of them. -/
def restoreStepwise (room : Nat) (s : String) : Except Error String :=
  if s.toList.any fun c => 128 ≤ c.toNat then .error .invalidArgument
  else
    match pushPairs? room "" s.toList with
    | some restored => .ok restored
    | none => .error .storageExhausted

section Pairs

variable {α : Type}

/-- The first one of a complete pair goes behind its partner. -/
theorem getElem?_swapPairs_odd (xs : List α) {k : Nat} (h : 2 * k + 1 < xs.length) :
    (swapPairs xs)[2 * k + 1]? = xs[2 * k]? := by
  induction k generalizing xs with
  | zero =>
    match xs, h with
    | _ :: _ :: _, _ => rfl
  | succ k ih =>
    match xs, h with
    | _ :: _ :: rest, h => exact ih rest (by simp only [List.length_cons] at h; omega)

/-- And the second one goes in front. -/
theorem getElem?_swapPairs_even (xs : List α) {k : Nat} (h : 2 * k + 1 < xs.length) :
    (swapPairs xs)[2 * k]? = xs[2 * k + 1]? := by
  have hback := getElem?_swapPairs_odd (swapPairs xs) (by rwa [length_swapPairs])
  rw [swapPairs_swapPairs] at hback
  exact hback.symm

/-- One without a partner stays. -/
theorem getElem?_swapPairs_last (xs : List α) {k : Nat} (h : xs.length = 2 * k + 1) :
    (swapPairs xs)[2 * k]? = xs[2 * k]? := by
  induction k generalizing xs with
  | zero =>
    match xs, h with
    | [_], _ => rfl
  | succ k ih =>
    match xs, h with
    | _ :: _ :: rest, h => exact ih rest (by simp only [List.length_cons] at h; omega)

end Pairs

/-- Without a character outside ASCII. -/
def IsAscii (s : String) : Prop :=
  ∀ c ∈ s.toList, c.toNat < 128

theorem any_eq_false_iff {s : String} :
    (s.toList.any fun c => 128 ≤ c.toNat) = false ↔ IsAscii s := by
  simp [IsAscii]

theorem IsAscii.utf8ByteSize_eq {s : String} (h : IsAscii s) : s.utf8ByteSize = s.length := by
  have hsize := Octets.utf8ByteSize_of_ascii h
  rwa [String.ofList_toList, String.length_toList] at hsize

/-- An exchange leaves the characters as they are. -/
theorem IsAscii.swapPairs {s : String} (h : IsAscii s) :
    IsAscii (String.ofList (swapPairs s.toList)) := by
  intro c hc
  rw [String.toList_ofList, mem_swapPairs] at hc
  exact h c hc

theorem restoreSemiOctets_of_not_isAscii {room : Nat} {s : String} (h : ¬IsAscii s) :
    restoreSemiOctets room s = .error .invalidArgument := by
  rw [← any_eq_false_iff, Bool.not_eq_false] at h
  rw [restoreSemiOctets, if_pos h]

theorem restoreSemiOctets_of_isAscii {room : Nat} {s : String} (h : IsAscii s) :
    restoreSemiOctets room s =
      if s.utf8ByteSize ≤ room then .ok (String.ofList (swapPairs s.toList))
      else .error .storageExhausted := by
  rw [restoreSemiOctets, any_eq_false_iff.mpr h, h.utf8ByteSize_eq]
  by_cases hroom : s.length ≤ room
  · simp [hroom, Nat.not_lt.mpr hroom]
  · simp [hroom, Nat.lt_of_not_le hroom]

/-- An ASCII character takes one byte of the room. -/
theorem push?_of_ascii {c : Char} (h : c.toNat < 128) (room : Nat) (text : String) :
    push? room text c = if text.utf8ByteSize < room then some (text.push c) else none := by
  rw [push?, Octets.utf8Size_of_ascii h]
  rfl

theorem utf8ByteSize_push_of_ascii {c : Char} (h : c.toNat < 128) (text : String) :
    (text.push c).utf8ByteSize = text.utf8ByteSize + 1 := by
  rw [String.utf8ByteSize_push, Octets.utf8Size_of_ascii h]

/-- All characters are pushed, unless there are more of them than room. -/
theorem pushPairs?_eq {room : Nat} {text : String} {cs : List Char} (hcs : ∀ c ∈ cs, c.toNat < 128)
    (hroom : text.utf8ByteSize ≤ room) :
    pushPairs? room text cs =
      if text.utf8ByteSize + cs.length ≤ room then some (text ++ String.ofList (swapPairs cs))
      else none := by
  induction cs using swapPairs.induct generalizing text with
  | case1 a b rest ih =>
    have ha : a.toNat < 128 := hcs a (by simp)
    have hb : b.toNat < 128 := hcs b (by simp)
    have hone := utf8ByteSize_push_of_ascii hb text
    have htwo := utf8ByteSize_push_of_ascii ha (text.push b)
    have hpushed : (text.push b).push a ++ String.ofList (swapPairs rest) =
        text ++ String.ofList (swapPairs (a :: b :: rest)) := by
      rw [← String.toList_inj]
      simp [swapPairs]
    rw [pushPairs?, push?_of_ascii hb]
    split
    case isFalse hfull =>
      rw [if_neg (by simp only [List.length_cons]; omega)]
      rfl
    case isTrue =>
      simp only [Option.bind_eq_bind, Option.bind_some, push?_of_ascii ha, hone]
      split
      case isFalse hfull =>
        rw [if_neg (by simp only [List.length_cons]; omega)]
        rfl
      case isTrue =>
        have hsize : text.utf8ByteSize + 1 + 1 + rest.length =
            text.utf8ByteSize + (a :: b :: rest).length := by
          simp only [List.length_cons]
          omega
        rw [Option.bind_some, ih (fun c hc => hcs c (by simp [hc])) (by omega), htwo, hone,
          hpushed, hsize]
  | case2 rest short =>
    rcases rest with - | ⟨c, - | ⟨d, later⟩⟩
    · simp [pushPairs?, swapPairs, hroom]
    · have hpushed : text.push c = text ++ String.ofList (swapPairs [c]) := by
        rw [← String.toList_inj]
        simp [swapPairs]
      rw [pushPairs?, push?_of_ascii (hcs c (by simp)), hpushed]
      rfl
    · exact absurd rfl (short c d later)

/-- Looking at the room for each character comes to the same as looking at it once. -/
theorem restoreStepwise_eq (room : Nat) (s : String) :
    restoreStepwise room s = restoreSemiOctets room s := by
  by_cases hascii : IsAscii s
  · have hempty : "".utf8ByteSize ≤ room := Nat.zero_le room
    have hpushed := pushPairs?_eq hascii hempty
    rw [String.utf8ByteSize_empty, Nat.zero_add, String.length_toList, ← hascii.utf8ByteSize_eq,
      String.empty_append] at hpushed
    rw [restoreSemiOctets_of_isAscii hascii, restoreStepwise, any_eq_false_iff.mpr hascii, hpushed]
    by_cases hroom : s.utf8ByteSize ≤ room <;> simp [hroom]
  · rw [restoreSemiOctets_of_not_isAscii hascii, restoreStepwise,
      if_pos (by rwa [← any_eq_false_iff, Bool.not_eq_false] at hascii)]

/-- What an exchange yields is the text in swapped pairs. -/
theorem restoreSemiOctets_eq_ok_iff {room : Nat} {s t : String} :
    restoreSemiOctets room s = .ok t ↔
      IsAscii s ∧ s.utf8ByteSize ≤ room ∧ t = String.ofList (swapPairs s.toList) := by
  by_cases hascii : IsAscii s
  · rw [restoreSemiOctets_of_isAscii hascii]
    by_cases hroom : s.utf8ByteSize ≤ room <;> simp [hascii, hroom, eq_comm]
  · simp [restoreSemiOctets_of_not_isAscii hascii, hascii]

/-- The characters of each complete pair have changed places, and one without a partner stands where
it was. -/
structure Exchanged (s t : List Char) : Prop where
  length_eq : t.length = s.length
  first : ∀ k, 2 * k + 1 < s.length → t[2 * k + 1]? = s[2 * k]?
  second : ∀ k, 2 * k + 1 < s.length → t[2 * k]? = s[2 * k + 1]?
  last : ∀ k, s.length = 2 * k + 1 → t[2 * k]? = s[2 * k]?

theorem exchanged_swapPairs (cs : List Char) : Exchanged cs (swapPairs cs) where
  length_eq := length_swapPairs cs
  first _ := getElem?_swapPairs_odd cs
  second _ := getElem?_swapPairs_even cs
  last _ := getElem?_swapPairs_last cs

/-- An exchange succeeds for the ASCII texts of at most as many bytes as there is room for. Any other
character is a bad argument, however long the text is, and an ASCII text can only be too long. What
comes out has the characters of each pair exchanged and is of the same length, and another exchange,
with room for it, gives the text back. All this holds of the exchange character by character. -/
theorem restoreSemiOctets_exchanges (room : Nat) (s : String) :
    ((∃ t, restoreSemiOctets room s = .ok t) ↔ IsAscii s ∧ s.utf8ByteSize ≤ room) ∧
    (restoreSemiOctets room s = .error .invalidArgument ↔ ¬IsAscii s) ∧
    (restoreSemiOctets room s = .error .storageExhausted ↔ IsAscii s ∧ room < s.utf8ByteSize) ∧
    (∀ t, restoreSemiOctets room s = .ok t →
      t.utf8ByteSize = s.utf8ByteSize ∧ Exchanged s.toList t.toList ∧
        ∀ other, s.utf8ByteSize ≤ other → restoreSemiOctets other t = .ok s) ∧
    restoreStepwise room s = restoreSemiOctets room s := by
  refine ⟨?succeeds, ?invalid, ?exhausted, ?exchanged, restoreStepwise_eq room s⟩
  case succeeds => simp [restoreSemiOctets_eq_ok_iff]
  case invalid =>
    by_cases hascii : IsAscii s
    · rw [restoreSemiOctets_of_isAscii hascii]
      by_cases hroom : s.utf8ByteSize ≤ room <;> simp [hascii, hroom]
    · simp [restoreSemiOctets_of_not_isAscii hascii, hascii]
  case exhausted =>
    by_cases hascii : IsAscii s
    · rw [restoreSemiOctets_of_isAscii hascii, ← Nat.not_le]
      by_cases hroom : s.utf8ByteSize ≤ room <;> simp [hascii, hroom]
    · simp [restoreSemiOctets_of_not_isAscii hascii, hascii]
  case exchanged =>
    intro t ht
    obtain ⟨hascii, -, rfl⟩ := restoreSemiOctets_eq_ok_iff.mp ht
    have hback := hascii.swapPairs
    have hsize : (String.ofList (swapPairs s.toList)).utf8ByteSize = s.utf8ByteSize := by
      rw [hback.utf8ByteSize_eq, hascii.utf8ByteSize_eq, String.length_ofList, length_swapPairs,
        String.length_toList]
    refine ⟨hsize, ?_, fun other hother => ?_⟩
    · rw [String.toList_ofList]
      exact exchanged_swapPairs s.toList
    · refine restoreSemiOctets_eq_ok_iff.mpr ⟨hback, hsize ▸ hother, ?_⟩
      rw [String.toList_ofList, swapPairs_swapPairs, String.ofList_toList]

/-- The number of a card, of odd length, there and back. -/
theorem restoreSemiOctets_exchanges_card :
    restoreSemiOctets 24 "981012345678901234F" = .ok "890121436587092143F" ∧
      restoreSemiOctets 24 "890121436587092143F" = .ok "981012345678901234F" := by
  have hcard : restoreSemiOctets 24 "981012345678901234F" = .ok "890121436587092143F" := by
    decide +kernel
  obtain ⟨-, -, -, hexchanged, -⟩ := restoreSemiOctets_exchanges 24 "981012345678901234F"
  exact ⟨hcard, (hexchanged _ hcard).2.2 24 (by decide +kernel)⟩

end CellModem.Code
