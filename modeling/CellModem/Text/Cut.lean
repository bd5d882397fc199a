import CellModem.Text.Octets

/-!
Cutting a text at positions among its bytes. Not every position will do: it may stand inside a
character of several bytes, or behind the end. A cut that is not possible yields nothing.
-/

namespace CellModem.Text

/-- The text can be cut here: in front of a character, or at its end. -/
def IsBoundary (text : String) (position : Nat) : Prop :=
  String.Pos.Raw.IsValid text ⟨position⟩

instance (text : String) (position : Nat) : Decidable (IsBoundary text position) :=
  decidable_of_iff _ String.Pos.Raw.isValid_eq_true_iff

/-- The text between two positions, if they are in order and it can be cut at both. -/
def cut? (text : String) (start stop : Nat) : Option String :=
  if start ≤ stop ∧ IsBoundary text start ∧ IsBoundary text stop then
    Octets.text? (((Octets.ofText text).take stop).drop start)
  else none

/-- The text in front of a position and the text behind it, if it can be cut there. -/
def halves? (text : String) (position : Nat) : Option (String × String) :=
  match cut? text 0 position, cut? text position text.utf8ByteSize with
  | some front, some back => some (front, back)
  | _, _ => none

/-- Where the first character of a kind stands, in characters of which the first one stands at
`position`. -/
def positionFrom? (kind : Char → Bool) (position : Nat) : List Char → Option Nat
  | [] => none
  | c :: cs => if kind c then some position else positionFrom? kind (position + c.utf8Size) cs

/-- Where the first character of a kind stands. -/
def position? (kind : Char → Bool) (text : String) : Option Nat :=
  positionFrom? kind 0 text.toList

/-- These characters stand behind the position. -/
def Behind (text : String) (position : Nat) (rest : List Char) : Prop :=
  ∃ front, text.toList = front ++ rest ∧ position = (String.ofList front).utf8ByteSize

theorem IsBoundary.le_size {text : String} {position : Nat} (h : IsBoundary text position) :
    position ≤ text.utf8ByteSize :=
  h.le_rawEndPos

theorem behind_zero (text : String) : Behind text 0 text.toList :=
  ⟨[], rfl, rfl⟩

theorem size_append (front rest : List Char) : (String.ofList (front ++ rest)).utf8ByteSize =
    (String.ofList front).utf8ByteSize + (String.ofList rest).utf8ByteSize := by
  rw [String.ofList_append, String.utf8ByteSize_append]

section

variable {text : String} {position : Nat} {rest : List Char}

theorem Behind.eq_append (h : Behind text position rest) :
    ∃ front, text = front ++ String.ofList rest ∧ position = front.utf8ByteSize := by
  obtain ⟨front, htext, hposition⟩ := h
  refine ⟨String.ofList front, ?_, hposition⟩
  rw [← String.ofList_append, ← htext, String.ofList_toList]

/-- What characters stand behind can be cut off. -/
theorem Behind.isBoundary (h : Behind text position rest) : IsBoundary text position := by
  obtain ⟨front, rfl, rfl⟩ := h.eq_append
  exact String.Pos.Raw.isValid_iff_exists_append.mpr ⟨front, _, rfl, rfl⟩

/-- The bytes behind the position are those of the characters behind it. -/
theorem Behind.drop_ofText (h : Behind text position rest) :
    (Octets.ofText text).drop position = Octets.ofText (String.ofList rest) := by
  obtain ⟨front, rfl, rfl⟩ := h.eq_append
  rw [Octets.ofText_append, ← Octets.length_ofText, List.drop_left]

theorem Behind.size_add (h : Behind text position rest) :
    position + (String.ofList rest).utf8ByteSize = text.utf8ByteSize := by
  obtain ⟨front, rfl, rfl⟩ := h.eq_append
  rw [String.utf8ByteSize_append]

/-- The position behind the next characters. -/
theorem Behind.advance {passed : List Char} (h : Behind text position (passed ++ rest)) :
    Behind text (position + (String.ofList passed).utf8ByteSize) rest := by
  obtain ⟨front, htext, rfl⟩ := h
  exact ⟨front ++ passed, by rw [htext, List.append_assoc], (size_append front passed).symm⟩

/-- The next characters can be cut out. -/
theorem Behind.cut? {passed : List Char} (h : Behind text position (passed ++ rest)) :
    cut? text position (position + (String.ofList passed).utf8ByteSize) =
      some (String.ofList passed) := by
  have hpassed : ((Octets.ofText text).take
      (position + (String.ofList passed).utf8ByteSize)).drop position =
        Octets.ofText (String.ofList passed) := by
    rw [List.drop_take, h.drop_ofText, String.ofList_append, Octets.ofText_append,
      Nat.add_sub_cancel_left, ← Octets.length_ofText, List.take_left]
  rw [Text.cut?, if_pos ⟨Nat.le_add_right _ _, h.isBoundary, h.advance.isBoundary⟩, hpassed,
    Octets.text?_ofText]

/-- All that stands behind the position can be cut out. -/
theorem Behind.cut?_rest (h : Behind text position rest) :
    Text.cut? text position text.utf8ByteSize = some (String.ofList rest) := by
  rw [← List.append_nil rest] at h
  rw [← h.size_add, List.append_nil]
  exact h.cut?

theorem halves?_of_behind {front : List Char} (htext : text.toList = front ++ rest) :
    halves? text (String.ofList front).utf8ByteSize =
      some (String.ofList front, String.ofList rest) := by
  have hstart := behind_zero text
  rw [htext] at hstart
  have hfront := hstart.cut?
  have hrest := hstart.advance.cut?_rest
  rw [Nat.zero_add] at hfront hrest
  simp only [halves?, hfront, hrest]

end

/-- Behind the characters of another kind. -/
theorem positionFrom?_eq (kind : Char → Bool) (position : Nat) (cs : List Char) :
    positionFrom? kind position cs =
      if cs.any kind then
        some (position + (String.ofList (cs.takeWhile fun c => !kind c)).utf8ByteSize)
      else none := by
  induction cs generalizing position with
  | nil => rfl
  | cons c cs ih =>
    cases hkind : kind c with
    | true => simp [positionFrom?, hkind]
    | false => simp [positionFrom?, hkind, ih, Nat.add_assoc]

theorem position?_eq (kind : Char → Bool) (text : String) :
    position? kind text =
      if text.toList.any kind then
        some (String.ofList (text.toList.takeWhile fun c => !kind c)).utf8ByteSize
      else none := by
  rw [position?, positionFrom?_eq, Nat.zero_add]

end CellModem.Text
