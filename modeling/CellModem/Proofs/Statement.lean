import Mathlib.Data.List.TakeWhile
import CellModem.Statement.Load

/-!
What is found in a statement, and what of it gets into slots. A search for fewer fields finds the
first ones of a search for more, and goes as far as that. Slots are filled with exactly so many
fields if and only if the statement begins with so many that are all present; what the slots held
before does not count.
-/

namespace CellModem

/-- A text that can be stored is stored as a text. -/
theorem Parameter.eq_text_of_ofText? {s : String} {p : Parameter} (h : ofText? s = some p) :
    p = .text s := by
  unfold ofText? at h
  split at h
  case isTrue => exact (Option.some.inj h).symm
  case isFalse => cases h

namespace Statement

/-- What stands at the end of a statement is not padding. -/
theorem skipPadding_of_atEnd {text : List Char} (h : atEnd text = true) :
    skipPadding text = text := by
  cases text with
  | nil => rfl
  | cons c cs =>
    have hc : isPadding c = false := by
      simp only [atEnd, endsStatement, Bool.or_eq_true, beq_iff_eq] at h
      rcases h with ((rfl | rfl) | rfl) | rfl <;> decide
    simp [skipPadding, hc]

theorem scan_of_atEnd {text : List Char} (h : atEnd (skipPadding text) = true) (room : Nat) :
    scan room text = {} := by
  cases room with
  | zero => rfl
  | succ room => simp only [scan, h, if_true]

theorem scan_of_unclosed {text : List Char} (hend : atEnd (skipPadding text) = false)
    (hcut : Field.cut? (skipPadding text) = none) (room : Nat) :
    scan (room + 1) text = { unclosed := true } := by
  simp only [scan, hend, hcut, Bool.false_eq_true, if_false]

/-- A field with no comma behind it is the last one. -/
theorem scan_of_last {text rest : List Char} {field : Field}
    (hend : atEnd (skipPadding text) = false)
    (hcut : Field.cut? (skipPadding text) = some (field, rest))
    (hlast : ∀ later, skipPadding rest ≠ ',' :: later) (room : Nat) :
    scan (room + 1) text = { fields := [field] } := by
  simp only [scan, hend, hcut, Bool.false_eq_true, if_false]

/-- Behind a comma the search goes on. At the end of the statement there is another field, an absent
one, for whoever has room for it. -/
theorem scan_of_comma {text rest later : List Char} {field : Field}
    (hend : atEnd (skipPadding text) = false)
    (hcut : Field.cut? (skipPadding text) = some (field, rest))
    (hcomma : skipPadding rest = ',' :: later) (room : Nat) :
    scan (room + 1) text =
      if room ≠ 0 ∧ atEnd (skipPadding later) = true then { fields := [field, .absent] }
      else { scan room later with fields := field :: (scan room later).fields } := by
  simp only [scan, hend, hcut, hcomma, Bool.false_eq_true, if_false]

/-- What a search can come upon, however much room there is. -/
theorem scan_cases (text : List Char) :
    (∀ room, scan room text = {}) ∨
    (∀ room, scan (room + 1) text = { unclosed := true }) ∨
    (∃ field, ∀ room, scan (room + 1) text = { fields := [field] }) ∨
    ∃ field later, ∀ room, scan (room + 1) text =
      if room ≠ 0 ∧ atEnd (skipPadding later) = true then { fields := [field, .absent] }
      else { scan room later with fields := field :: (scan room later).fields } := by
  cases hend : atEnd (skipPadding text) with
  | true => exact Or.inl (scan_of_atEnd hend)
  | false =>
    refine Or.inr ?_
    cases hcut : Field.cut? (skipPadding text) with
    | none => exact Or.inl (scan_of_unclosed hend hcut)
    | some found =>
      obtain ⟨field, rest⟩ := found
      refine Or.inr ?_
      by_cases hcomma : ∃ later, skipPadding rest = ',' :: later
      · obtain ⟨later, hlater⟩ := hcomma
        exact Or.inr ⟨field, later, scan_of_comma hend hcut hlater⟩
      · rw [not_exists] at hcomma
        exact Or.inl ⟨field, scan_of_last hend hcut hcomma⟩

/-- A search that ends at an unclosed field has found fewer fields than there was room for. -/
theorem length_fields_lt_of_unclosed {room : Nat} {text : List Char}
    (h : (scan room text).unclosed = true) : (scan room text).fields.length < room := by
  induction room generalizing text with
  | zero => cases h
  | succ room ih =>
    obtain hscan | hscan | ⟨field, hscan⟩ | ⟨field, later, hscan⟩ := scan_cases text
    · rw [hscan] at h
      cases h
    · rw [hscan]
      exact Nat.succ_pos room
    · rw [hscan] at h
      cases h
    · rw [hscan] at h ⊢
      by_cases htrailing : room ≠ 0 ∧ atEnd (skipPadding later) = true
      · rw [if_pos htrailing] at h
        cases h
      · rw [if_neg htrailing] at h ⊢
        exact Nat.succ_lt_succ (ih h)

/-- A search with less room finds the first fields of a search with more. -/
theorem fields_scan_of_le {room more : Nat} (h : room ≤ more) (text : List Char) :
    (scan room text).fields = (scan more text).fields.take room := by
  induction room generalizing more text with
  | zero => rfl
  | succ room ih =>
    obtain ⟨more, rfl⟩ : ∃ less, more = less + 1 := ⟨more - 1, by omega⟩
    have hle : room ≤ more := Nat.le_of_succ_le_succ h
    obtain hscan | hscan | ⟨field, hscan⟩ | ⟨field, later, hscan⟩ := scan_cases text
    · rw [hscan, hscan]
      rfl
    · rw [hscan, hscan]
      rfl
    · rw [hscan, hscan, List.take_succ_cons, List.take_nil]
    · rw [hscan, hscan]
      have hlater := ih hle later
      by_cases hend : atEnd (skipPadding later) = true
      · -- the field that the last comma opens is there for whoever has room for two
        cases room with
        | zero => cases more <;> simp [hend, scan]
        | succ room =>
          have hmore : more ≠ 0 := by omega
          simp [hend, hmore]
      · simp [hend, hlater]

/-- All fields stand for a parameter as long as none of them is too long. -/
theorem map_parameter?_of_length {fields : List Field}
    (h : (parameters fields).length = fields.length) :
    fields.map Field.parameter? = (parameters fields).map some := by
  induction fields with
  | nil => rfl
  | cons field fields ih =>
    cases hfield : field.parameter? with
    | none => simp [parameters, hfield] at h
    | some p =>
      simp only [parameters, hfield, List.length_cons, Nat.add_right_cancel_iff] at h
      simp [parameters, hfield, ih h]

theorem parameters_of_map {fields : List Field} {params : List Parameter}
    (h : fields.map Field.parameter? = params.map some) : parameters fields = params := by
  induction fields generalizing params with
  | nil =>
    cases params with
    | nil => rfl
    | cons p params => cases h
  | cons field fields ih =>
    cases params with
    | nil => cases h
    | cons p params =>
      obtain ⟨hfield, hfields⟩ := List.cons_eq_cons.mp h
      simp [parameters, hfield, ih hfields]

/-- The statement begins with these parameters, none of which is missing. -/
structure Presents (text : List Char) (params : List Parameter) : Prop where
  fields : (scan params.length text).fields.map Field.parameter? = params.map some
  present : ∀ p ∈ params, p.isEmpty = false

/-- Then it begins with the first of them too. -/
theorem Presents.take {text : List Char} {params : List Parameter} (h : Presents text params)
    (count : Nat) : Presents text (params.take count) where
  fields := by
    have hle : (params.take count).length ≤ params.length := by
      rw [List.length_take]
      exact Nat.min_le_right _ _
    rw [fields_scan_of_le hle, List.map_take, h.fields, ← List.map_take, List.length_take,
      ← List.take_eq_take_min]
  present p hp := h.present p (List.mem_of_mem_take hp)

/-- The field at a place stands for the parameter at that place. -/
theorem Presents.field {text : List Char} {params : List Parameter} (h : Presents text params)
    {index : Nat} (hindex : index < params.length) :
    ∃ field, (scan params.length text).fields[index]? = some field ∧
      field.parameter? = some params[index] := by
  have hat := congrArg (·[index]?) h.fields
  simp only [List.getElem?_map, List.getElem?_eq_getElem hindex, Option.map_some] at hat
  exact Option.map_eq_some_iff.mp hat

end Statement

namespace Slots

open Statement

variable {limit : Nat}

theorem get_fill {slots : Slots limit} {params : List Parameter} {index : Nat}
    (h : index < params.length) : (slots.fill params).get index = .ok params[index] := by
  simp [get, fill, List.getElem?_append_left h, List.getElem?_eq_getElem h]

theorem populated_fill (slots : Slots limit) (params : List Parameter) :
    (slots.fill params).populated = (params.takeWhile fun p => !p.isEmpty).length := by
  have hempty : (List.replicate (slots.capacity - params.length) Parameter.empty).takeWhile
      (fun p => !p.isEmpty) = [] := by
    cases slots.capacity - params.length <;> rfl
  simp only [populated, fill, List.takeWhile_append, hempty, List.append_nil]
  split
  case isTrue hall => exact hall.symm
  case isFalse => rfl

/-- Reading that succeeds has found no field that is unclosed or too long. -/
theorem load_of_ok {slots after : Slots limit} {max count : Nat} {text : List Char}
    (h : slots.load max text = (.ok count, after)) :
    slots.isAllocated = true ∧
      (scan (min max slots.capacity) text).fields.length = count ∧
      (parameters (scan (min max slots.capacity) text).fields).length = count ∧
      after = slots.fill (parameters (scan (min max slots.capacity) text).fields) := by
  unfold load at h
  split at h
  case isFalse => cases h
  case isTrue hallocated =>
    have hle := length_parameters_le (scan (min max slots.capacity) text).fields
    obtain ⟨hresult, hafter⟩ := Prod.mk.inj h
    split at hresult
    case isTrue => cases hresult
    case isFalse hlong =>
      split at hresult
      case isTrue => cases hresult
      case isFalse =>
        have hcount := Except.ok.inj hresult
        exact ⟨hallocated, hcount, by omega, hafter.symm⟩

/-- Reading an exact number of fields succeeds if the statement begins with so many, all of them
present, and there is a slot for each; it fills the slots with them. -/
theorem loadExactly_eq_ok_iff {slots after : Slots limit} {count : Nat} {text : List Char} :
    slots.loadExactly count text = (.ok (), after) ↔
      slots.isAllocated = true ∧ count ≤ slots.capacity ∧
        ∃ params, params.length = count ∧ Presents text params ∧ after = slots.fill params := by
  constructor
  · intro h
    unfold loadExactly at h
    split at h
    case h_1 => cases h
    case h_2 found next hload =>
      split at h
      case isFalse => cases h
      case isTrue hpopulated =>
        cases h
        obtain ⟨hallocated, hfields, hparams, rfl⟩ := load_of_ok hload
        have hroom := length_scan_fields_le (min count slots.capacity) text
        rw [populated_fill] at hpopulated
        have htaken := List.takeWhile_prefix (fun p => !p.isEmpty)
          (l := parameters (scan (min count slots.capacity) text).fields)
        have hle := htaken.length_le
        have hfound : found = count := by omega
        have hcount : min count slots.capacity = count := by omega
        have hall := List.takeWhile_eq_self_iff.mp (htaken.eq_of_length (by omega))
        rw [hcount, hfound] at hfields hparams
        rw [hcount] at hall ⊢
        refine ⟨hallocated, by omega, _, hparams, ⟨?_, ?_⟩, rfl⟩
        · rw [hparams]
          exact map_parameter?_of_length (hparams.trans hfields.symm)
        · intro p hp
          simpa using hall p hp
  · rintro ⟨hallocated, hroom, params, rfl, hpresents, rfl⟩
    have hparams := parameters_of_map hpresents.fields
    have hlength : (scan params.length text).fields.length = params.length := by
      simpa using congrArg List.length hpresents.fields
    have hclosed : (scan params.length text).unclosed = false := by
      rw [Bool.eq_false_iff]
      intro hunclosed
      exact absurd (length_fields_lt_of_unclosed hunclosed) (by omega)
    have hpopulated : (slots.fill params).populated = params.length := by
      rw [populated_fill, List.takeWhile_eq_self_iff.mpr]
      intro p hp
      rw [hpresents.present p hp]
      rfl
    simp [loadExactly, load, hallocated, Nat.min_eq_left hroom, hparams, hlength, hclosed,
      hpopulated]

end Slots

end CellModem
