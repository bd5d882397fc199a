import CellModem.Error
import CellModem.Numeral

/-!
The numeric name of an operator: three digits of the mobile country, the rest of the mobile network.
-/

namespace CellModem.Code

structure NetworkCode where
  country : UInt16
  network : UInt16
  deriving DecidableEq, Repr

/-- A digit numeral below 65536. -/
def shortNumeral? (cs : List Char) : Option UInt16 :=
  match Numeral.decimalValue? cs with
  | some v => if v < 65536 then some (UInt16.ofNat v) else none
  | none => none

/-- The two codes of an operator such as `24201`: more than three digits and nothing else, each
part below 65536. -/
def NetworkCode.ofOperator (operator : String) : Except Error NetworkCode :=
  let digits := operator.toList
  if operator.utf8ByteSize ≤ 3 || !digits.all Numeral.isDecimalDigit then .error .invalidArgument
  else
    match shortNumeral? (digits.take 3), shortNumeral? (digits.drop 3) with
    | some country, some network => .ok ⟨country, network⟩
    | _, _ => .error .invalidArgument

end CellModem.Code
