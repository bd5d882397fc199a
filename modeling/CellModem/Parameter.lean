import CellModem.Error
import CellModem.Settings

/-!
Typed parameters of a response: what one comma separated field of it turns into.
-/

namespace CellModem

inductive Parameter where
  | empty
  | short (value : UInt16)
  | int (value : UInt32)
  | text (value : String)
  deriving DecidableEq, Repr, Inhabited

namespace Parameter

inductive Kind where
  | empty
  | short
  | int
  | text
  deriving DecidableEq, Repr

def kind : Parameter → Kind
  | .empty => .empty
  | .short _ => .short
  | .int _ => .int
  | .text _ => .text

def isEmpty (p : Parameter) : Bool :=
  p.kind == .empty

/-- Bytes that the value takes. -/
def size : Parameter → Nat
  | .empty => 0
  | .short _ => 2
  | .int _ => 4
  | .text s => s.utf8ByteSize

/-- A text as a parameter, if a slot has room for it. -/
def ofText? (s : String) : Option Parameter :=
  if s.utf8ByteSize ≤ Limits.text then some (.text s) else none

end Parameter

end CellModem
