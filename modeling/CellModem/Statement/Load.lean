import CellModem.Slots
import CellModem.Statement

/-!
Reading a statement into slots. The slots are emptied first, so that what they held before never
shows; a failure leaves the fields that came before it.
-/

namespace CellModem.Slots

open Statement

variable {limit : Nat}

/-- The first slots hold `params`, all others are empty. -/
def fill (slots : Slots limit) (params : List Parameter) : Slots limit :=
  { cells := params ++ List.replicate (slots.capacity - params.length) .empty }

/-- Read at most `max` fields of a statement, and no more than there are slots. The result counts
the fields. -/
def load (slots : Slots limit) (max : Nat) (text : List Char) :
    Except Error Nat × Slots limit :=
  if slots.isAllocated then
    let found := scan (min max slots.capacity) text
    let params := parameters found.fields
    let result :=
      if params.length < found.fields.length then .error .storageExhausted
      else if found.unclosed then .error .incomplete
      else .ok found.fields.length
    (result, slots.fill params)
  else (.error .invalidArgument, slots)

/-- Read a statement into as many slots as there are. -/
def loadAll (slots : Slots limit) (text : List Char) : Except Error Nat × Slots limit :=
  slots.load slots.capacity text

/-- Read `count` fields, none of which may be missing or empty. -/
def loadExactly (slots : Slots limit) (count : Nat) (text : List Char) :
    Except Error Unit × Slots limit :=
  match slots.load count text with
  | (.error e, slots) => (.error e, slots)
  | (.ok _, slots) =>
    if slots.populated = count then (.ok (), slots) else (.error .incomplete, slots)

/-- Reading keeps the number of slots. -/
theorem capacity_load (slots : Slots limit) (max : Nat) (text : List Char) :
    (slots.load max text).2.capacity = slots.capacity := by
  unfold load
  split
  · have found := length_scan_fields_le (min max slots.capacity) text
    have stored := length_parameters_le (scan (min max slots.capacity) text).fields
    simp only [capacity, fill, List.length_append, List.length_replicate] at *
    omega
  · rfl

end CellModem.Slots
