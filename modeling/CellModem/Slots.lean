import CellModem.Parameter

/-!
The slots that hold the parameters of a response. They are allocated once and then filled again for
every response; their number stays the same until they are released.
-/

namespace CellModem

/-- Slots for the parameters of a response, `limit` at most. Without any
slot they are not allocated and refuse all access. -/
structure Slots (limit : Nat) where
  cells : List Parameter := []
  deriving DecidableEq, Repr

namespace Slots

variable {limit : Nat}

def capacity (slots : Slots limit) : Nat :=
  slots.cells.length

def isAllocated (slots : Slots limit) : Bool :=
  !slots.cells.isEmpty

def unallocated : Slots limit :=
  {}

/-- All slots that the limit admits, each of them empty. -/
def full : Slots limit :=
  { cells := List.replicate limit .empty }

/-- Fails when there are slots already, and for a capacity of zero or above the limit. -/
def allocate (slots : Slots limit) (capacity : Nat) :
    Except Error (Slots limit) :=
  if slots.isAllocated || capacity == 0 || limit < capacity then .error .invalidArgument
  else .ok { cells := List.replicate capacity .empty }

def ofCapacity (capacity : Nat) : Except Error (Slots limit) :=
  unallocated.allocate capacity

def release (_ : Slots limit) : Slots limit :=
  unallocated

def clearAll (slots : Slots limit) : Slots limit :=
  { cells := slots.cells.map fun _ => .empty }

/-- Replace the parameter of one slot. -/
def put (slots : Slots limit) (index : Nat) (p : Parameter) :
    Except Error (Slots limit) :=
  if index < slots.capacity then .ok { cells := slots.cells.set index p }
  else .error .invalidArgument

def clear (slots : Slots limit) (index : Nat) : Except Error (Slots limit) :=
  slots.put index .empty

def putShort (slots : Slots limit) (index : Nat) (value : UInt16) :
    Except Error (Slots limit) :=
  slots.put index (.short value)

def putInt (slots : Slots limit) (index : Nat) (value : UInt32) :
    Except Error (Slots limit) :=
  slots.put index (.int value)

/-- A bad index is reported before a text that is too long. -/
def putText (slots : Slots limit) (index : Nat) (value : String) :
    Except Error (Slots limit) :=
  if index < slots.capacity then
    match Parameter.ofText? value with
    | some p => slots.put index p
    | none => .error .storageExhausted
  else .error .invalidArgument

def get (slots : Slots limit) (index : Nat) : Except Error Parameter :=
  match slots.cells[index]? with
  | some p => .ok p
  | none => .error .invalidArgument

def kind (slots : Slots limit) (index : Nat) : Except Error Parameter.Kind :=
  (slots.get index).map Parameter.kind

def size (slots : Slots limit) (index : Nat) : Except Error Nat :=
  (slots.get index).map Parameter.size

def short (slots : Slots limit) (index : Nat) : Except Error UInt16 :=
  match slots.get index with
  | .ok (.short value) => .ok value
  | .ok _ => .error .typeMismatch
  | .error e => .error e

def int (slots : Slots limit) (index : Nat) : Except Error UInt32 :=
  match slots.get index with
  | .ok (.int value) => .ok value
  | .ok _ => .error .typeMismatch
  | .error e => .error e

def text (slots : Slots limit) (index : Nat) : Except Error String :=
  match slots.get index with
  | .ok (.text value) => .ok value
  | .ok _ => .error .typeMismatch
  | .error e => .error e

/-- Number of slots in front of the first empty one. -/
def populated (slots : Slots limit) : Nat :=
  (slots.cells.takeWhile fun p => !p.isEmpty).length

@[simp] theorem cells_full : (full : Slots limit).cells = List.replicate limit .empty :=
  rfl

@[simp] theorem capacity_full : (full : Slots limit).capacity = limit := by
  simp [capacity]

@[simp] theorem capacity_clearAll (slots : Slots limit) :
    slots.clearAll.capacity = slots.capacity := by
  simp [capacity, clearAll]

/-- Putting a parameter touches its own slot and no other. -/
theorem cells_of_put {slots next : Slots limit} {index : Nat} {p : Parameter}
    (h : slots.put index p = .ok next) : next.cells = slots.cells.set index p := by
  unfold put at h
  split at h
  · cases h; rfl
  · cases h

theorem index_lt_capacity_of_put {slots next : Slots limit} {index : Nat} {p : Parameter}
    (h : slots.put index p = .ok next) : index < slots.capacity := by
  unfold put at h
  split at h
  · assumption
  · cases h

/-- What was put is there to be got. -/
theorem get_of_put_self {slots next : Slots limit} {index : Nat} {p : Parameter}
    (h : slots.put index p = .ok next) : next.get index = .ok p := by
  have bound : index < slots.cells.length := index_lt_capacity_of_put h
  simp [get, cells_of_put h, bound]

theorem get_of_put_ne {slots next : Slots limit} {index other : Nat} {p : Parameter}
    (h : slots.put index p = .ok next) (apart : index ≠ other) :
    next.get other = slots.get other := by
  simp [get, cells_of_put h, List.getElem?_set_ne apart]

end Slots

end CellModem
