import Mathlib
import CellModem.Proofs.Answer
import CellModem.Proofs.Number
import CellModem.Slots.Copy

/-!
Slots against a plain store. The store is a number of places with a ledger of everything that was
written to them, and what a place holds is the last entry for it. Whatever slots are used for, they
answer like that store, use after use; and no use gets beyond the room there is, for slots or for
the text in one of them.
-/

namespace CellModem

namespace Parameter

def asInt : Parameter → Except Error UInt32
  | .int v => .ok v
  | _ => .error .typeMismatch

/-- A slot has room for the value. -/
def Fits (p : Parameter) : Prop :=
  ∀ s, p = .text s → s.utf8ByteSize ≤ Limits.text

theorem fits_of_ofText? {s : String} {p : Parameter} (h : ofText? s = some p) : p.Fits := by
  unfold ofText? at h
  split at h
  case isTrue hfits =>
    cases h
    rintro t ⟨⟩
    exact hfits
  case isFalse => cases h

end Parameter

namespace Statement

theorem Field.fits_of_parameter? {field : Field} {p : Parameter}
    (h : field.parameter? = some p) : p.Fits := by
  cases field with
  | absent =>
    cases h
    rintro s ⟨⟩
  | quoted inner => exact Parameter.fits_of_ofText? h
  | listed inner => exact Parameter.fits_of_ofText? h
  | bare word =>
    simp only [parameter?, wordParameter?] at h
    split at h
    case isTrue =>
      cases h
      rintro s ⟨⟩
    case isFalse =>
      split at h
      case h_1 => exact Parameter.fits_of_ofText? h
      case h_2 =>
        split at h
        case isTrue =>
          cases h
          rintro s ⟨⟩
        case isFalse =>
          split at h
          case isTrue =>
            cases h
            rintro s ⟨⟩
          case isFalse => exact Parameter.fits_of_ofText? h

theorem fits_of_mem_parameters {fields : List Field} {p : Parameter}
    (h : p ∈ parameters fields) : p.Fits := by
  induction fields with
  | nil => cases h
  | cons field fields ih =>
    cases hfield : field.parameter? with
    | none => simp [parameters, hfield] at h
    | some q =>
      simp only [parameters, hfield, List.mem_cons] at h
      rcases h with rfl | hlater
      · exact Field.fits_of_parameter? hfield
      · exact ih hlater

end Statement

namespace Slots

/-- What slots are used for. The first three uses begin with new slots, and the last three read a
statement. -/
inductive Use where
  | renew
  | full
  | ofCapacity (capacity : Nat)
  | allocate (capacity : Nat)
  | release
  | clearAll
  | clear (index : Nat)
  | putShort (index : Nat) (value : UInt16)
  | putInt (index : Nat) (value : UInt32)
  | putText (index : Nat) (value : String)
  | isAllocated
  | capacity
  | populated
  | get (index : Nat)
  | kind (index : Nat)
  | size (index : Nat)
  | short (index : Nat)
  | int (index : Nat)
  | text (index : Nat)
  | copyText (index : Nat) (dest : Octets)
  | load (max : Nat) (text : List Char)
  | loadAll (text : List Char)
  | loadExactly (count : Nat) (text : List Char)

namespace Use

/-- The slots before do not count. -/
def renews : Use → Bool
  | .renew | .full | .ofCapacity _ => true
  | _ => false

def reads : Use → Bool
  | .load _ _ | .loadAll _ | .loadExactly _ _ => true
  | _ => false

/-- What is to be put, and where. -/
def put? : Use → Option (Nat × Parameter)
  | .clear index => some (index, .empty)
  | .putShort index value => some (index, .short value)
  | .putInt index value => some (index, .int value)
  | .putText index value => some (index, .text value)
  | _ => none

end Use

inductive Answer where
  | done (result : Except Error Unit)
  | flag (value : Bool)
  | number (result : Except Error Nat)
  | parameter (result : Except Error Parameter)
  | kind (result : Except Error Parameter.Kind)
  | short (result : Except Error UInt16)
  | int (result : Except Error UInt32)
  | text (result : Except Error String)
  /-- With the destination, as it is afterwards. -/
  | copied (result : Except Error Nat) (dest : Octets)
  deriving DecidableEq

def Answer.error? : Answer → Option Error
  | .done (.error cause) | .number (.error cause) | .parameter (.error cause)
  | .kind (.error cause) | .short (.error cause) | .int (.error cause) | .text (.error cause)
  | .copied (.error cause) _ => some cause
  | _ => none

variable {limit : Nat}

/-- The new slots, or the old ones if there are no new ones. -/
def settle (slots : Slots limit) : Except Error (Slots limit) → Answer × Slots limit
  | .ok next => (.done (.ok ()), next)
  | .error cause => (.done (.error cause), slots)

def use (slots : Slots limit) : Use → Answer × Slots limit
  | .renew => (.done (.ok ()), unallocated)
  | .full => (.done (.ok ()), full)
  | .ofCapacity capacity => slots.settle (ofCapacity capacity)
  | .allocate capacity => slots.settle (slots.allocate capacity)
  | .release => (.done (.ok ()), slots.release)
  | .clearAll => (.done (.ok ()), slots.clearAll)
  | .clear index => slots.settle (slots.clear index)
  | .putShort index value => slots.settle (slots.putShort index value)
  | .putInt index value => slots.settle (slots.putInt index value)
  | .putText index value => slots.settle (slots.putText index value)
  | .isAllocated => (.flag slots.isAllocated, slots)
  | .capacity => (.number (.ok slots.capacity), slots)
  | .populated => (.number (.ok slots.populated), slots)
  | .get index => (.parameter (slots.get index), slots)
  | .kind index => (.kind (slots.kind index), slots)
  | .size index => (.number (slots.size index), slots)
  | .short index => (.short (slots.short index), slots)
  | .int index => (.int (slots.int index), slots)
  | .text index => (.text (slots.text index), slots)
  | .copyText index dest =>
    let (result, written) := slots.copyText index dest
    (.copied result written, slots)
  | .load max text =>
    let (result, after) := slots.load max text
    (.number result, after)
  | .loadAll text =>
    let (result, after) := slots.loadAll text
    (.number result, after)
  | .loadExactly count text =>
    let (result, after) := slots.loadExactly count text
    (.done result, after)

def run (slots : Slots limit) : List Use → List Answer × Slots limit
  | [] => ([], slots)
  | use :: uses =>
    let (answer, next) := slots.use use
    let (answers, last) := next.run uses
    (answer :: answers, last)

end Slots

open Slots (Use Answer)

/-- A plain store: how many places it has, and what was written to them, the last entry first. -/
structure Ledger where
  places : Nat := 0
  entries : List (Nat × Parameter) := []

namespace Ledger

/-- What was written to a place last. -/
def last (ledger : Ledger) (index : Nat) : Parameter :=
  (ledger.entries.lookup index).getD .empty

def at? (ledger : Ledger) (index : Nat) : Option Parameter :=
  if index < ledger.places then some (ledger.last index) else none

def write (ledger : Ledger) (index : Nat) (p : Parameter) : Ledger :=
  { ledger with entries := (index, p) :: ledger.entries }

theorem last_write (ledger : Ledger) (index other : Nat) (p : Parameter) :
    (ledger.write index p).last other = if other = index then p else ledger.last other := by
  by_cases heq : other = index
  · simp [last, write, heq]
  · simp [last, write, List.lookup_cons, heq, beq_eq_false_iff_ne.mpr heq]

/-- Look at a place, if there is one, with a question that its parameter may be of the wrong kind
for. -/
def ask {α : Type} (ledger : Ledger) (index : Nat) (question : Parameter → Except Error α) :
    Except Error α :=
  match ledger.at? index with
  | some p => question p
  | none => .error .invalidArgument

/-- Write to a place, if there is one, what may be too long for it. -/
def put (ledger : Ledger) (index : Nat) (p? : Option Parameter) : Answer × Ledger :=
  if index < ledger.places then
    match p? with
    | some p => (.done (.ok ()), ledger.write index p)
    | none => (.done (.error .storageExhausted), ledger)
  else (.done (.error .invalidArgument), ledger)

/-- New places, if there are to be some and not too many. -/
def allocate (ledger : Ledger) (limit capacity : Nat) : Answer × Ledger :=
  if 0 < capacity ∧ capacity ≤ limit then (.done (.ok ()), { places := capacity })
  else (.done (.error .invalidArgument), ledger)

def populated (ledger : Ledger) : Nat :=
  ((List.range ledger.places).takeWhile fun index => !(ledger.last index).isEmpty).length

/-- Copy to the front of a destination. -/
def copy (ledger : Ledger) (index : Nat) (dest : Octets) : Answer :=
  match ledger.ask index Parameter.asText with
  | .error cause => .copied (.error cause) dest
  | .ok s =>
    if s.utf8ByteSize ≤ dest.length then
      .copied (.ok s.utf8ByteSize) (Octets.ofText s ++ dest.drop s.utf8ByteSize)
    else .copied (.error .bufferTooSmall) dest

/-- Write fields to the places from this one on, up to a field that is too long. -/
def writeFields (ledger : Ledger) (index : Nat) :
    List Statement.Field → Except Error Unit × Ledger
  | [] => (.ok (), ledger)
  | field :: fields =>
    match field.parameter? with
    | some p => (ledger.write index p).writeFields (index + 1) fields
    | none => (.error .storageExhausted, ledger)

/-- Read fields of a statement into places that are all empty before. -/
def load (ledger : Ledger) (max : Nat) (text : List Char) : Except Error Nat × Ledger :=
  if ledger.places = 0 then (.error .invalidArgument, ledger)
  else
    let found := Statement.scan (min max ledger.places) text
    match ({ ledger with entries := [] } : Ledger).writeFields 0 found.fields with
    | (.error cause, after) => (.error cause, after)
    | (.ok (), after) =>
      (if found.unclosed then .error .incomplete else .ok found.fields.length, after)

def use (limit : Nat) (ledger : Ledger) : Use → Answer × Ledger
  | .renew => (.done (.ok ()), {})
  | .full => (.done (.ok ()), { places := limit })
  | .ofCapacity capacity => ledger.allocate limit capacity
  | .allocate capacity =>
    if ledger.places = 0 then ledger.allocate limit capacity
    else (.done (.error .invalidArgument), ledger)
  | .release => (.done (.ok ()), {})
  | .clearAll => (.done (.ok ()), { ledger with entries := [] })
  | .clear index => ledger.put index (some .empty)
  | .putShort index value => ledger.put index (some (.short value))
  | .putInt index value => ledger.put index (some (.int value))
  | .putText index value =>
    ledger.put index (if value.utf8ByteSize ≤ 64 then some (.text value) else none)
  | .isAllocated => (.flag (decide (0 < ledger.places)), ledger)
  | .capacity => (.number (.ok ledger.places), ledger)
  | .populated => (.number (.ok ledger.populated), ledger)
  | .get index => (.parameter (ledger.ask index .ok), ledger)
  | .kind index => (.kind (ledger.ask index fun p => .ok p.kind), ledger)
  | .size index => (.number (ledger.ask index fun p => .ok p.size), ledger)
  | .short index => (.short (ledger.ask index Parameter.asShort), ledger)
  | .int index => (.int (ledger.ask index Parameter.asInt), ledger)
  | .text index => (.text (ledger.ask index Parameter.asText), ledger)
  | .copyText index dest => (ledger.copy index dest, ledger)
  | .load max text =>
    let (result, after) := ledger.load max text
    (.number result, after)
  | .loadAll text =>
    let (result, after) := ledger.load ledger.places text
    (.number result, after)
  | .loadExactly count text =>
    match ledger.load count text with
    | (.error cause, after) => (.done (.error cause), after)
    | (.ok _, after) =>
      (.done (if after.populated = count then .ok () else .error .incomplete), after)

def run (limit : Nat) (ledger : Ledger) : List Use → List Answer × Ledger
  | [] => ([], ledger)
  | use :: uses =>
    let (answer, next) := ledger.use limit use
    let (answers, last) := next.run limit uses
    (answer :: answers, last)

end Ledger

namespace Slots

variable {limit : Nat} {slots : Slots limit} {ledger : Ledger}

theorem short_eq_bind (slots : Slots limit) (index : Nat) :
    slots.short index = slots.get index >>= Parameter.asShort := by
  unfold short
  cases slots.get index with
  | error cause => rfl
  | ok p => cases p <;> rfl

theorem int_eq_bind (slots : Slots limit) (index : Nat) :
    slots.int index = slots.get index >>= Parameter.asInt := by
  unfold int
  cases slots.get index with
  | error cause => rfl
  | ok p => cases p <;> rfl

theorem text_eq_bind (slots : Slots limit) (index : Nat) :
    slots.text index = slots.get index >>= Parameter.asText := by
  unfold text
  cases slots.get index with
  | error cause => rfl
  | ok p => cases p <;> rfl

/-- The slots hold what was written to the places last. -/
structure Represents (slots : Slots limit) (ledger : Ledger) : Prop where
  capacity : slots.capacity = ledger.places
  cells : ∀ index, slots.cells[index]? = ledger.at? index

theorem represents_replicate (capacity : Nat) :
    ({ cells := List.replicate capacity .empty } : Slots limit).Represents
      { places := capacity } where
  capacity := List.length_replicate
  cells index := by
    simp only [List.getElem?_replicate, Ledger.at?, Ledger.last, List.lookup_nil, Option.getD_none]

theorem represents_unallocated : (unallocated : Slots limit).Represents {} :=
  represents_replicate 0

namespace Represents

variable (h : slots.Represents ledger)

include h

theorem get_eq (index : Nat) : slots.get index = ledger.ask index .ok := by
  cases hplace : ledger.at? index <;> simp [get, h.cells, Ledger.ask, hplace]

theorem isAllocated_eq : slots.isAllocated = decide (0 < ledger.places) := by
  have hplaces := h.capacity
  rw [← hplaces, isAllocated, Slots.capacity]
  cases slots.cells <;> simp

theorem cells_eq : slots.cells = (List.range ledger.places).map ledger.last := by
  apply List.ext_getElem?
  intro index
  rw [h.cells, Ledger.at?, List.getElem?_map]
  split
  case isTrue hindex => rw [List.getElem?_range hindex, Option.map_some]
  case isFalse hindex => rw [List.getElem?_eq_none (by simpa using hindex), Option.map_none]

theorem populated_eq : slots.populated = ledger.populated := by
  rw [populated, h.cells_eq, List.takeWhile_map, List.length_map]
  rfl

theorem write {index : Nat} (hindex : index < slots.capacity) (p : Parameter) :
    ({ cells := slots.cells.set index p } : Slots limit).Represents (ledger.write index p) where
  capacity := by
    rw [Slots.capacity, List.length_set]
    exact h.capacity
  cells other := by
    have hplaces : index < ledger.places := h.capacity ▸ hindex
    rw [Ledger.at?, Ledger.last_write]
    by_cases heq : other = index
    · subst heq
      rw [List.getElem?_set_self hindex, if_pos rfl]
      exact (if_pos hplaces).symm
    · rw [List.getElem?_set_ne (Ne.symm heq), h.cells, if_neg heq]
      rfl

theorem clearAll : slots.clearAll.Represents { ledger with entries := [] } := by
  have hcells : slots.clearAll = { cells := List.replicate slots.capacity .empty } := by
    simp [Slots.clearAll, Slots.capacity, List.map_const']
  rw [hcells, h.capacity]
  exact represents_replicate ledger.places

/-- Putting is writing. -/
theorem settle_put (index : Nat) (p : Parameter) :
    (slots.settle (slots.put index p)).1 = (ledger.put index (some p)).1 ∧
      (slots.settle (slots.put index p)).2.Represents (ledger.put index (some p)).2 := by
  rw [put, Ledger.put, h.capacity]
  split
  case isTrue hindex => exact ⟨rfl, h.write (h.capacity ▸ hindex) p⟩
  case isFalse => exact ⟨rfl, h⟩

theorem settle_putText (index : Nat) (s : String) :
    (slots.settle (slots.putText index s)).1 = (ledger.put index (Parameter.ofText? s)).1 ∧
      (slots.settle (slots.putText index s)).2.Represents
        (ledger.put index (Parameter.ofText? s)).2 := by
  cases hfits : Parameter.ofText? s with
  | some p =>
    have hput : slots.putText index s = slots.put index p := by
      rw [putText, hfits]
      split
      case isTrue => rfl
      case isFalse hindex => exact (if_neg hindex).symm
    rw [hput]
    exact h.settle_put index p
  | none =>
    rw [putText, Ledger.put, h.capacity, hfits]
    split <;> exact ⟨rfl, h⟩

end Represents

/-- Writing the fields of a statement one by one fills the slots with their parameters. -/
theorem represents_writeFields {params : List Parameter} {fields : List Statement.Field}
    (h : (slots.fill params).Represents ledger)
    (hroom : params.length + fields.length ≤ slots.capacity) :
    (ledger.writeFields params.length fields).1 =
        (if (Statement.parameters fields).length < fields.length then .error .storageExhausted
          else .ok ()) ∧
      (slots.fill (params ++ Statement.parameters fields)).Represents
        (ledger.writeFields params.length fields).2 := by
  induction fields generalizing params ledger with
  | nil => exact ⟨rfl, by rwa [Statement.parameters, List.append_nil]⟩
  | cons field fields ih =>
    rw [List.length_cons] at hroom
    cases hfield : field.parameter? with
    | none =>
      simp only [Ledger.writeFields, Statement.parameters, hfield, List.length_nil,
        List.length_cons, Nat.succ_pos, if_true, List.append_nil]
      exact ⟨trivial, h⟩
    | some p =>
      have hindex : params.length < slots.capacity := by omega
      have hnext : (slots.fill (params ++ [p])).Represents (ledger.write params.length p) := by
        have hwritten := h.write (by rwa [capacity_fill hindex.le]) p
        rwa [← cells_of_put (put_fill hindex p)] at hwritten
      have hlater := ih hnext (by
        rw [List.length_append, List.length_singleton]
        omega)
      rw [List.length_append, List.length_singleton, List.append_assoc,
        List.singleton_append] at hlater
      simpa only [Ledger.writeFields, Statement.parameters, hfield, List.length_cons,
        Nat.add_lt_add_iff_right] using hlater

namespace Represents

variable (h : slots.Represents ledger)

include h

theorem load (max : Nat) (text : List Char) :
    (slots.load max text).1 = (ledger.load max text).1 ∧
      (slots.load max text).2.Represents (ledger.load max text).2 := by
  by_cases hplaces : ledger.places = 0
  · have hfree : slots.isAllocated = false := by simp [h.isAllocated_eq, hplaces]
    simp only [Slots.load, Ledger.load, hfree, hplaces, if_true, Bool.false_eq_true, if_false]
    exact ⟨trivial, h⟩
  · have hallocated : slots.isAllocated = true := by
      simp [h.isAllocated_eq, Nat.pos_of_ne_zero hplaces]
    simp only [Slots.load, Ledger.load, hallocated, hplaces, h.capacity, if_true, if_false]
    generalize hfound : Statement.scan (min max ledger.places) text = found
    have hroom : found.fields.length ≤ slots.capacity := by
      rw [h.capacity, ← hfound]
      exact Nat.le_trans (Statement.length_scan_fields_le _ _) (Nat.min_le_right _ _)
    have hempty : (slots.fill []).Represents { ledger with entries := [] } := by
      rw [fill_nil]
      exact h.clearAll
    obtain ⟨hresult, hafter⟩ := represents_writeFields hempty (by simpa using hroom)
    rw [List.length_nil] at hresult hafter
    rw [List.nil_append] at hafter
    cases hwritten : ({ ledger with entries := [] } : Ledger).writeFields 0 found.fields with
    | mk result after =>
      rw [hwritten] at hresult hafter
      split at hresult
      case isTrue hlong =>
        obtain rfl := hresult
        exact ⟨by rw [if_pos hlong], hafter⟩
      case isFalse hstored =>
        obtain rfl := hresult
        exact ⟨by rw [if_neg hstored], hafter⟩

theorem loadExactly (count : Nat) (text : List Char) :
    (slots.use (.loadExactly count text)).1 = (ledger.use limit (.loadExactly count text)).1 ∧
      (slots.use (.loadExactly count text)).2.Represents
        (ledger.use limit (.loadExactly count text)).2 := by
  obtain ⟨hresult, hafter⟩ := h.load count text
  simp only [use, Ledger.use, Slots.loadExactly]
  cases hslots : slots.load count text with
  | mk result after =>
    cases hledger : ledger.load count text with
    | mk expected ledgerAfter =>
      rw [hslots, hledger] at hresult hafter
      obtain rfl := hresult
      cases result with
      | error cause => exact ⟨rfl, hafter⟩
      | ok found =>
        simp only [hafter.populated_eq]
        split <;> exact ⟨rfl, hafter⟩

theorem settle_ofCapacity (capacity : Nat) :
    (slots.settle (ofCapacity capacity)).1 = (ledger.allocate limit capacity).1 ∧
      (slots.settle (ofCapacity capacity)).2.Represents (ledger.allocate limit capacity).2 := by
  have hsize : ((unallocated : Slots limit).isAllocated || capacity == 0 ||
      decide (limit < capacity)) = !decide (0 < capacity ∧ capacity ≤ limit) := by
    rw [Bool.eq_iff_iff]
    simp [unallocated, isAllocated]
  rw [ofCapacity, allocate, Ledger.allocate, hsize]
  by_cases hfits : 0 < capacity ∧ capacity ≤ limit
  · rw [decide_eq_true hfits, if_neg (by decide), if_pos hfits]
    exact ⟨rfl, represents_replicate capacity⟩
  · rw [decide_eq_false hfits, if_pos Bool.not_false, if_neg hfits]
    exact ⟨rfl, h⟩

theorem settle_allocate (capacity : Nat) :
    (slots.settle (slots.allocate capacity)).1 = (ledger.use limit (.allocate capacity)).1 ∧
      (slots.settle (slots.allocate capacity)).2.Represents
        (ledger.use limit (.allocate capacity)).2 := by
  rw [Ledger.use]
  split
  case isTrue hplaces =>
    have hfree : slots.isAllocated = (unallocated : Slots limit).isAllocated := by
      rw [h.isAllocated_eq, hplaces]
      rfl
    have hnew : slots.allocate capacity = ofCapacity capacity := by
      rw [ofCapacity, allocate, allocate, hfree]
    rw [hnew]
    exact h.settle_ofCapacity capacity
  case isFalse hplaces =>
    have hallocated : slots.isAllocated = true := by
      simp [h.isAllocated_eq, Nat.pos_of_ne_zero hplaces]
    rw [allocate, hallocated]
    exact ⟨rfl, h⟩

theorem bind_get_eq {α : Type} (question : Parameter → Except Error α) (index : Nat) :
    slots.get index >>= question = ledger.ask index question := by
  rw [h.get_eq, Ledger.ask, Ledger.ask]
  cases ledger.at? index <;> rfl

theorem short_eq (index : Nat) : slots.short index = ledger.ask index Parameter.asShort := by
  rw [← h.bind_get_eq, short_eq_bind]

theorem int_eq (index : Nat) : slots.int index = ledger.ask index Parameter.asInt := by
  rw [← h.bind_get_eq, int_eq_bind]

theorem text_eq (index : Nat) : slots.text index = ledger.ask index Parameter.asText := by
  rw [← h.bind_get_eq, text_eq_bind]

theorem map_get_eq {α : Type} (f : Parameter → α) (index : Nat) :
    (slots.get index).map f = ledger.ask index fun p => .ok (f p) := by
  rw [← h.bind_get_eq]
  cases slots.get index <;> rfl

theorem copyText_eq (index : Nat) (dest : Octets) :
    Answer.copied (slots.copyText index dest).1 (slots.copyText index dest).2 =
      ledger.copy index dest := by
  rw [copyText, h.text_eq, Ledger.copy]
  cases ledger.ask index Parameter.asText with
  | error cause => rfl
  | ok s =>
    simp only [Octets.overwriteFront?, Octets.length_ofText]
    by_cases hfits : s.utf8ByteSize ≤ dest.length
    · rw [if_pos hfits, if_pos hfits]
    · rw [if_neg hfits, if_neg hfits]

/-- Slots that agree with the store answer like it, and agree with it afterwards. -/
theorem use (u : Use) :
    (slots.use u).1 = (ledger.use limit u).1 ∧
      (slots.use u).2.Represents (ledger.use limit u).2 := by
  cases u with
  | renew => exact ⟨rfl, represents_unallocated⟩
  | full => exact ⟨rfl, represents_replicate limit⟩
  | ofCapacity capacity => exact h.settle_ofCapacity capacity
  | allocate capacity => exact h.settle_allocate capacity
  | release => exact ⟨rfl, represents_unallocated⟩
  | clearAll => exact ⟨rfl, h.clearAll⟩
  | clear index => exact h.settle_put index .empty
  | putShort index value => exact h.settle_put index (.short value)
  | putInt index value => exact h.settle_put index (.int value)
  | putText index value => exact h.settle_putText index value
  | isAllocated => exact ⟨congrArg Answer.flag h.isAllocated_eq, h⟩
  | capacity => exact ⟨congrArg (Answer.number <| .ok ·) h.capacity, h⟩
  | populated => exact ⟨congrArg (Answer.number <| .ok ·) h.populated_eq, h⟩
  | get index => exact ⟨congrArg Answer.parameter (h.get_eq index), h⟩
  | kind index => exact ⟨congrArg Answer.kind (h.map_get_eq Parameter.kind index), h⟩
  | size index => exact ⟨congrArg Answer.number (h.map_get_eq Parameter.size index), h⟩
  | short index => exact ⟨congrArg Answer.short (h.short_eq index), h⟩
  | int index => exact ⟨congrArg Answer.int (h.int_eq index), h⟩
  | text index => exact ⟨congrArg Answer.text (h.text_eq index), h⟩
  | copyText index dest => exact ⟨h.copyText_eq index dest, h⟩
  | load max text =>
    obtain ⟨hresult, hafter⟩ := h.load max text
    exact ⟨congrArg Answer.number hresult, hafter⟩
  | loadAll text =>
    have hall : slots.loadAll text = slots.load ledger.places text := by
      rw [loadAll, h.capacity]
    obtain ⟨hresult, hafter⟩ := h.load ledger.places text
    rw [Slots.use, hall]
    exact ⟨congrArg Answer.number hresult, hafter⟩
  | loadExactly count text => exact h.loadExactly count text

end Represents

theorem run_represents (h : slots.Represents ledger) (uses : List Use) :
    (slots.run uses).1 = (ledger.run limit uses).1 ∧
      (slots.run uses).2.Represents (ledger.run limit uses).2 := by
  induction uses generalizing slots ledger with
  | nil => exact ⟨rfl, h⟩
  | cons u uses ih =>
    obtain ⟨hanswer, hnext⟩ := h.use u
    obtain ⟨hanswers, hlast⟩ := ih hnext
    simp only [run, Ledger.run]
    exact ⟨by rw [hanswer, hanswers], hlast⟩

/-- What slots are like however they were used. -/
structure Sound (slots : Slots limit) : Prop where
  capacity_le : slots.capacity ≤ limit
  fits : ∀ p ∈ slots.cells, p.Fits

/-- Slots may be filled with what they have room for. -/
theorem sound_fill {params : List Parameter} (hlimit : slots.capacity ≤ limit)
    (hroom : params.length ≤ slots.capacity) (hfits : ∀ p ∈ params, p.Fits) :
    (slots.fill params).Sound where
  capacity_le := by
    rw [capacity_fill hroom]
    exact hlimit
  fits p hp := by
    rcases List.mem_append.mp hp with hstored | hempty
    · exact hfits p hstored
    · rw [List.eq_of_mem_replicate hempty]
      rintro s ⟨⟩

theorem sound_replicate {capacity : Nat} (h : capacity ≤ limit) :
    ({ cells := List.replicate capacity .empty } : Slots limit).Sound where
  capacity_le := by
    rw [Slots.capacity, List.length_replicate]
    exact h
  fits p hp := by
    rw [List.eq_of_mem_replicate hp]
    rintro s ⟨⟩

theorem sound_unallocated : (unallocated : Slots limit).Sound :=
  sound_replicate (Nat.zero_le limit)

theorem sound_of_allocate {capacity : Nat} {next : Slots limit}
    (h : slots.allocate capacity = .ok next) : next.Sound := by
  unfold allocate at h
  split at h
  case isTrue => cases h
  case isFalse hsize =>
    cases h
    simp only [Bool.or_eq_true, decide_eq_true_eq, not_or, Nat.not_lt] at hsize
    exact sound_replicate hsize.2

namespace Sound

variable (h : slots.Sound)

include h

theorem settle {result : Except Error (Slots limit)}
    (hnext : ∀ next, result = .ok next → next.Sound) : (slots.settle result).2.Sound := by
  cases result with
  | ok next => exact hnext next rfl
  | error cause => exact h

theorem put {index : Nat} {p : Parameter} (hp : p.Fits) {next : Slots limit}
    (hnext : slots.put index p = .ok next) : next.Sound where
  capacity_le := by
    rw [Slots.capacity, cells_of_put hnext, List.length_set]
    exact h.capacity_le
  fits q hq := by
    rw [cells_of_put hnext] at hq
    rcases List.mem_or_eq_of_mem_set hq with hold | rfl
    · exact h.fits q hold
    · exact hp

theorem putText {index : Nat} {s : String} {next : Slots limit}
    (hnext : slots.putText index s = .ok next) : next.Sound := by
  unfold Slots.putText at hnext
  split at hnext
  case isFalse => cases hnext
  case isTrue =>
    split at hnext
    case h_1 p hp => exact h.put (Parameter.fits_of_ofText? hp) hnext
    case h_2 => cases hnext

theorem load (max : Nat) (text : List Char) : (slots.load max text).2.Sound := by
  unfold Slots.load
  split
  case isTrue =>
    refine sound_fill h.capacity_le ?_ fun p hp => Statement.fits_of_mem_parameters hp
    have hstored := Statement.length_parameters_le
      (Statement.scan (min max slots.capacity) text).fields
    have hfound := Statement.length_scan_fields_le (min max slots.capacity) text
    omega
  case isFalse => exact h

theorem use (u : Use) : (slots.use u).2.Sound := by
  have hput {p : Parameter} (hp : p.Fits) (index : Nat) :
      (slots.settle (slots.put index p)).2.Sound :=
    h.settle fun next hnext => h.put hp hnext
  cases u with
  | renew => exact sound_unallocated
  | full => exact sound_replicate (Nat.le_refl limit)
  | ofCapacity capacity => exact h.settle fun next hnext => sound_of_allocate hnext
  | allocate capacity => exact h.settle fun next hnext => sound_of_allocate hnext
  | release => exact sound_unallocated
  | clearAll =>
    rw [Slots.use, ← fill_nil]
    exact sound_fill h.capacity_le (Nat.zero_le _) (by simp)
  | clear index => exact hput (by rintro s ⟨⟩) index
  | putShort index value => exact hput (by rintro s ⟨⟩) index
  | putInt index value => exact hput (by rintro s ⟨⟩) index
  | putText index value => exact h.settle fun next hnext => h.putText hnext
  | load max text => exact h.load max text
  | loadAll text => exact h.load slots.capacity text
  | loadExactly count text =>
    have hload := h.load count text
    rwa [← loadExactly_snd] at hload
  | _ => exact h

end Sound

theorem sound_run (h : slots.Sound) (uses : List Use) : (slots.run uses).2.Sound := by
  induction uses generalizing slots with
  | nil => exact h
  | cons u uses ih => exact ih (h.use u)

/-- The slots in front of the first empty one are counted, and no others. -/
theorem get_of_populated (slots : Slots limit) :
    (∀ index < slots.populated, ∃ p, slots.get index = .ok p ∧ p.isEmpty = false) ∧
      (slots.populated < slots.capacity → slots.get slots.populated = .ok .empty) := by
  have hcounted := List.takeWhile_prefix (fun p => !p.isEmpty) (l := slots.cells)
  constructor
  · intro index hindex
    have hfront : index < (slots.cells.takeWhile fun p => !p.isEmpty).length := hindex
    have hbound : index < slots.cells.length := Nat.lt_of_lt_of_le hfront hcounted.length_le
    have hpresent := List.mem_takeWhile_imp (List.getElem_mem hfront)
    rw [hcounted.getElem hfront] at hpresent
    exact ⟨slots.cells[index], by rw [get, List.getElem?_eq_getElem hbound],
      by simpa using hpresent⟩
  · intro hless
    -- the first slot that is not counted is where counting stopped
    have hhead : (slots.cells.dropWhile fun p => !p.isEmpty).head? =
        slots.cells[slots.populated]? := by
      have hcells : slots.cells = _ ++ slots.cells.dropWhile fun p => !p.isEmpty :=
        List.takeWhile_append_dropWhile.symm
      rw [List.head?_eq_getElem?]
      nth_rewrite 2 [hcells]
      rw [populated, List.getElem?_append_right (Nat.le_refl _), Nat.sub_self]
    obtain ⟨p, hp⟩ : ∃ p, slots.cells[slots.populated]? = some p :=
      ⟨_, List.getElem?_eq_getElem hless⟩
    have hnot := List.head?_dropWhile_not (fun p : Parameter => !p.isEmpty) slots.cells
    rw [hhead, hp] at hnot
    rw [get, hp]
    cases p with
    | empty => rfl
    | short _ | int _ | text _ => cases hnot

/-- What a use does to slots and to a destination, in whatever state the slots are. -/
structure Orderly (slots : Slots limit) (u : Use) : Prop where
  /-- The number of slots changes when slots that are not allocated are, and when they are
  released. -/
  capacity : u.renews = false → u ≠ .release →
    (slots.isAllocated = true ∨ ∀ capacity, u ≠ .allocate capacity) →
    (slots.use u).2.capacity = slots.capacity
  /-- One slot takes what is put into it, and all others keep what they have. -/
  put : ∀ index p, u.put? = some (index, p) →
    (∀ other, other ≠ index → (slots.use u).2.get other = slots.get other) ∧
      ((slots.use u).1 = .done (.ok ()) → (slots.use u).2.get index = .ok p)
  failed : u.reads = false → (slots.use u).1.error? ≠ none → (slots.use u).2 = slots
  copied : ∀ index dest, u = .copyText index dest →
    (∃ s, slots.get index = .ok (.text s) ∧ s.utf8ByteSize ≤ dest.length ∧
      (slots.use u).1 =
        .copied (.ok s.utf8ByteSize) (Octets.ofText s ++ dest.drop s.utf8ByteSize)) ∨
      ∃ cause, (slots.use u).1 = .copied (.error cause) dest

theorem settle_of_failed {result : Except Error (Slots limit)}
    (h : (slots.settle result).1.error? ≠ none) : (slots.settle result).2 = slots := by
  cases result with
  | ok next => exact absurd rfl h
  | error cause => rfl

theorem capacity_settle_put (slots : Slots limit) (index : Nat) (p : Parameter) :
    (slots.settle (slots.put index p)).2.capacity = slots.capacity := by
  cases hput : slots.put index p with
  | ok next =>
    rw [settle, capacity, cells_of_put hput, List.length_set]
    rfl
  | error cause => rfl

theorem putText_cases (slots : Slots limit) (index : Nat) (s : String) :
    slots.putText index s = slots.put index (.text s) ∨
      ∃ cause, slots.putText index s = .error cause := by
  rw [putText]
  split
  case isTrue =>
    split
    case h_1 p hp => exact Or.inl (by rw [Parameter.eq_text_of_ofText? hp])
    case h_2 => exact Or.inr ⟨_, rfl⟩
  case isFalse => exact Or.inr ⟨_, rfl⟩

theorem settle_put_orderly (slots : Slots limit) (index : Nat) (p : Parameter) :
    (∀ other, other ≠ index → (slots.settle (slots.put index p)).2.get other = slots.get other) ∧
      ((slots.settle (slots.put index p)).1 = .done (.ok ()) →
        (slots.settle (slots.put index p)).2.get index = .ok p) := by
  cases hput : slots.put index p with
  | ok next =>
    exact ⟨fun other hother => get_of_put_ne hput hother.symm, fun _ => get_of_put_self hput⟩
  | error cause => exact ⟨fun _ _ => rfl, fun h => by cases h⟩

theorem orderly (slots : Slots limit) (u : Use) : slots.Orderly u where
  capacity hrenews hrelease hallocate := by
    cases u with
    | renew | full | ofCapacity _ => cases hrenews
    | release => exact absurd rfl hrelease
    | allocate capacity =>
      have hallocated : slots.isAllocated = true :=
        hallocate.resolve_right fun h => h capacity rfl
      rw [use, allocate, hallocated]
      rfl
    | clearAll => exact slots.capacity_clearAll
    | clear index => exact slots.capacity_settle_put index .empty
    | putShort index value => exact slots.capacity_settle_put index (.short value)
    | putInt index value => exact slots.capacity_settle_put index (.int value)
    | putText index value =>
      rw [use]
      obtain hfits | ⟨cause, hfailed⟩ := slots.putText_cases index value
      · rw [hfits]
        exact slots.capacity_settle_put index (.text value)
      · rw [hfailed]
        rfl
    | load max text => exact slots.capacity_load max text
    | loadAll text => exact slots.capacity_load slots.capacity text
    | loadExactly count text =>
      rw [use, loadExactly_snd]
      exact slots.capacity_load count text
    | _ => rfl
  put index p hput := by
    cases u <;> cases hput
    case clear => exact slots.settle_put_orderly index .empty
    case putShort value => exact slots.settle_put_orderly index (.short value)
    case putInt value => exact slots.settle_put_orderly index (.int value)
    case putText value =>
      rw [use]
      obtain hfits | ⟨cause, hfailed⟩ := slots.putText_cases index value
      · rw [hfits]
        exact slots.settle_put_orderly index (.text value)
      · rw [hfailed]
        exact ⟨fun _ _ => rfl, fun h => by cases h⟩
  failed hreads herror := by
    cases u with
    | ofCapacity _ | allocate _ | clear _ | putShort _ _ | putInt _ _ | putText _ _ =>
      exact settle_of_failed herror
    | renew | full | release | clearAll => exact absurd rfl herror
    | load _ _ | loadAll _ | loadExactly _ _ => cases hreads
    | _ => rfl
  copied index dest hu := by
    subst hu
    rw [use, copyText, text]
    cases hget : slots.get index with
    | error cause => exact Or.inr ⟨cause, rfl⟩
    | ok p =>
      cases p with
      | empty | short _ | int _ => exact Or.inr ⟨.typeMismatch, rfl⟩
      | text s =>
        by_cases hfits : s.utf8ByteSize ≤ dest.length
        · refine Or.inl ⟨s, rfl, hfits, ?_⟩
          simp only [Octets.overwriteFront?, Octets.length_ofText, if_pos hfits]
        · refine Or.inr ⟨.bufferTooSmall, ?_⟩
          simp only [Octets.overwriteFront?, Octets.length_ofText, if_neg hfits]

/-- Slots are a plain store. Whatever they are used for one after another, beginning with none, each
use has the answer of the store, and in the end every slot holds what was written to its place
last. All along there are no more slots than the limit says, no text is longer than a slot has room
for, and the next use, whichever it is, goes by the rules of `Orderly`. -/
theorem run_refines_ledger (limit : Nat) (uses : List Use) :
    let (answers, slots) := (unallocated : Slots limit).run uses
    let (expected, ledger) := ({} : Ledger).run limit uses
    answers = expected ∧ slots.Represents ledger ∧ slots.capacity ≤ limit ∧
      (∀ index s, slots.get index = .ok (.text s) → s.utf8ByteSize ≤ 64) ∧
      (∀ index < slots.populated, ∃ p, slots.get index = .ok p ∧ p.isEmpty = false) ∧
      (slots.populated < slots.capacity → slots.get slots.populated = .ok .empty) ∧
      ∀ u, slots.Orderly u := by
  let start : Slots limit := unallocated
  have hrun := run_represents (represents_unallocated : start.Represents {}) uses
  have hsound := sound_run (sound_unallocated : start.Sound) uses
  cases hslots : start.run uses with
  | mk answers slots =>
    cases hledger : ({} : Ledger).run limit uses with
    | mk expected ledger =>
      rw [hslots, hledger] at hrun
      rw [hslots] at hsound
      obtain ⟨hpresent, habsent⟩ := slots.get_of_populated
      refine ⟨hrun.1, hrun.2, hsound.capacity_le, ?_, hpresent, habsent, slots.orderly⟩
      intro index s hget
      rw [get] at hget
      split at hget
      case h_1 p hp =>
        cases hget
        exact hsound.fits _ (List.mem_of_getElem? hp) s rfl
      case h_2 => cases hget

/-- The slots refuse all access before they are allocated; a copy that does not fit writes nothing,
and reading a statement takes everything away that was there. -/
example : ((unallocated : Slots 4).run [.putShort 0 7, .allocate 2, .putText 1 "abc",
    .copyText 1 [1, 2], .copyText 1 [1, 2, 3, 4], .load 2 "70000,\"x".toList, .int 0, .get 1]).1 =
    [.done (.error .invalidArgument), .done (.ok ()), .done (.ok ()),
      .copied (.error .bufferTooSmall) [1, 2], .copied (.ok 3) [97, 98, 99, 4],
      .number (.error .incomplete), .int (.ok 70000), .parameter (.ok .empty)] := by
  decide +kernel

end Slots

end CellModem
