import CellModem.Text.Blank

/-!
Bytes on the wire and the text they spell. A text goes out as its UTF-8 bytes, and bytes count as
text only if they are valid UTF-8.
-/

namespace CellModem

/-- A sequence of bytes, as it travels over the transport. -/
abbrev Octets := List UInt8

namespace Octets

/-- The UTF-8 bytes of a text. -/
def ofText (s : String) : Octets :=
  s.toUTF8.data.toList

/-- The text that the bytes spell, if they are valid UTF-8. -/
def text? (bytes : Octets) : Option String :=
  String.fromUTF8? ⟨bytes.toArray⟩

/-- Without ASCII white space at either end. -/
def trim (bytes : Octets) : Octets :=
  let blank := fun b : UInt8 => Text.isAsciiBlank b.toNat
  ((bytes.dropWhile blank).reverse.dropWhile blank).reverse

theorem text?_ofText (s : String) : text? (ofText s) = some s := by
  simp only [text?, ofText, String.fromUTF8?, String.toUTF8_eq_toByteArray, Array.toArray_toList,
    dif_pos s.isValidUTF8]
  rfl

/-- A text has as many bytes as its UTF-8 size says. -/
theorem length_ofText (s : String) : (ofText s).length = s.utf8ByteSize := by
  simp only [ofText, String.toUTF8_eq_toByteArray, Array.length_toList]
  rfl

/-- A text goes out character by character. -/
theorem ofText_ofList (cs : List Char) :
    ofText (String.ofList cs) = cs.flatMap String.utf8EncodeChar := by
  rw [ofText, String.toUTF8_eq_toByteArray, String.toByteArray_ofList, List.utf8Encode,
    List.data_toByteArray, List.toList_toArray]

theorem ofText_append (s t : String) : ofText (s ++ t) = ofText s ++ ofText t := by
  simp only [ofText, String.toUTF8_eq_toByteArray, String.toByteArray_append, ByteArray.data_append,
    Array.toList_append]

/-- A text never has more characters than bytes. -/
theorem length_le_utf8ByteSize (cs : List Char) : cs.length ≤ (String.ofList cs).utf8ByteSize := by
  induction cs with
  | nil => exact Nat.zero_le _
  | cons c cs ih =>
    have hsize := c.utf8Size_pos
    rw [String.ofList_cons, String.utf8ByteSize_append, String.utf8ByteSize_singleton,
      List.length_cons]
    omega

theorem utf8Size_of_ascii {c : Char} (h : c.toNat < 128) : c.utf8Size = 1 := by
  rw [Char.utf8Size_eq_one_iff, UInt32.le_iff_toNat_le]
  exact Nat.le_of_lt_succ h

/-- A text of ASCII characters has as many of them as bytes. -/
theorem utf8ByteSize_of_ascii {cs : List Char} (h : ∀ c ∈ cs, c.toNat < 128) :
    (String.ofList cs).utf8ByteSize = cs.length := by
  induction cs with
  | nil => rfl
  | cons c cs ih =>
    rw [String.ofList_cons, String.utf8ByteSize_append, String.utf8ByteSize_singleton,
      utf8Size_of_ascii (h c List.mem_cons_self), ih fun d hd => h d (List.mem_cons_of_mem c hd),
      List.length_cons, Nat.add_comm]

/-- A character below 128 is one byte, its code. All bytes of any other character are 128 or
more. -/
theorem toNat_of_mem_utf8EncodeChar {c : Char} {b : UInt8} (h : b ∈ String.utf8EncodeChar c) :
    c.toNat < 128 ∧ b.toNat = c.toNat ∨ 128 ≤ c.toNat ∧ 128 ≤ b.toNat := by
  have hbyte (n : Nat) (heq : b = UInt8.ofNat n) : b.toNat = n % 256 := by
    rw [heq, UInt8.toNat_ofNat']
  have hc : c.toNat = c.val.toNat := rfl
  unfold String.utf8EncodeChar at h
  simp only at h
  split at h
  case isTrue hascii =>
    have hvalue := hbyte _ (List.mem_singleton.mp h)
    omega
  case isFalse =>
    refine Or.inr ⟨by omega, ?_⟩
    split at h
    case isTrue =>
      simp only [List.mem_cons, List.not_mem_nil, or_false] at h
      rcases h with h | h <;> have hvalue := hbyte _ h <;> omega
    case isFalse =>
      split at h
      case isTrue =>
        simp only [List.mem_cons, List.not_mem_nil, or_false] at h
        rcases h with h | h | h <;> have hvalue := hbyte _ h <;> omega
      case isFalse =>
        simp only [List.mem_cons, List.not_mem_nil, or_false] at h
        rcases h with h | h | h | h <;> have hvalue := hbyte _ h <;> omega

end Octets

end CellModem
