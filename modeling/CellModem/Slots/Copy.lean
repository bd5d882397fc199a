import CellModem.Slots
import CellModem.Text.Octets

/-!
Copying into a destination of fixed size. Either everything fits and lands at the front, or the
destination keeps every byte it had.
-/

namespace CellModem

/-- The destination after a copy to its front, if it is long enough. -/
def Octets.overwriteFront? (dest source : Octets) : Option Octets :=
  if source.length ≤ dest.length then some (source ++ dest.drop source.length) else none

/-- Copy the text of a slot; the result counts the bytes written. -/
def Slots.copyText {limit : Nat} (slots : Slots limit) (index : Nat)
    (dest : Octets) : Except Error Nat × Octets :=
  match slots.text index with
  | .error e => (.error e, dest)
  | .ok s =>
    match dest.overwriteFront? (Octets.ofText s) with
    | none => (.error .bufferTooSmall, dest)
    | some written => (.ok s.utf8ByteSize, written)

/-- What comes of a copy is the source in front of what stood behind it. -/
theorem Octets.overwriteFront?_eq_some_iff {dest source written : Octets} :
    dest.overwriteFront? source = some written ↔
      source.length ≤ dest.length ∧ written = source ++ dest.drop source.length := by
  rw [overwriteFront?]
  split
  case isTrue hroom => simp [hroom, eq_comm]
  case isFalse hshort => simp [hshort]

end CellModem
