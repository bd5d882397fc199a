import CellModem.Error
import CellModem.Numeral

/-!
Hexadecimal fields of up to eight digits, such as a tracking area code or a cell identity.
-/

namespace CellModem.Code

/-- The digits behind one plus sign, if there is one. -/
def unsigned : List Char → List Char
  | '+' :: cs => cs
  | cs => cs

/-- Value of a hexadecimal field of at most eight bytes. The length is judged before the digits,
and one plus sign in front of them is allowed. -/
def hexWord (s : String) : Except HexFault UInt32 :=
  if s.isEmpty then .error .empty
  else if 8 < s.utf8ByteSize then .error .tooLong
  else
    match Numeral.hexValue? (unsigned s.toList) with
    | some v => .ok (UInt32.ofNat v)
    | none => .error .invalidDigit

theorem unsigned_eq_self {cs : List Char} (h : '+' ∉ cs) : unsigned cs = cs := by
  unfold unsigned
  split
  case h_1 => exact absurd List.mem_cons_self h
  case h_2 => rfl

end CellModem.Code
