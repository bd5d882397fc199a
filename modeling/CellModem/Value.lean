import CellModem.Numeral

/-!
A decoded piece of information about the modem.
-/

namespace CellModem

inductive Value where
  | number (value : UInt16)
  | text (value : String)
  deriving DecidableEq, Repr

namespace Value

/-- What kind of value an item has by its meaning. -/
inductive Kind where
  | number
  | text
  deriving DecidableEq, Repr

def number? : Value → Option UInt16
  | .number v => some v
  | .text _ => none

def text? : Value → Option String
  | .number _ => none
  | .text s => some s

/-- The value as text, a number in decimal. -/
def render : Value → String
  | .number v => String.ofList (Numeral.decimal v.toNat)
  | .text s => s

end Value

end CellModem
