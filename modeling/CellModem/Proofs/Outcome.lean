import CellModem.Proofs.LineEnd

/-!
What reading a statement comes to. Either all fields within the limit are read, or reading fails at
one of them, which is open or too long to be stored. The fields in front of it are read all the
same, and a limit that excludes it lets reading end well. So a smaller limit never changes what is
read below it.
-/

namespace CellModem

namespace Statement

/-- The text from the field with this number on, behind the padding in front of it. -/
def fieldAt? (index : Nat) (text : List Char) : Option (List Char) :=
  let text := skipPadding text
  if atEnd text then none
  else
    match index with
    | 0 => some text
    | index + 1 =>
      match Field.cut? text with
      | none => none
      | some (_, rest) =>
        match skipPadding rest with
        | ',' :: later => fieldAt? index later
        | _ => none

/-- The text a field is to be stored as: none for an empty field, and none for digits alone whose
value fits 32 bits. -/
def Field.text? : Field → Option (List Char)
  | .absent => none
  | .quoted inner => some (Text.trimEnd inner)
  | .listed inner => some ('(' :: (inner ++ [')']))
  | .bare word =>
    let word := Text.trimEnd word
    match Numeral.decimalValue? word with
    | some v => if v < 4294967296 then none else some word
    | none => if word.isEmpty then none else some word

/-- The field with this number cannot be read. -/
inductive FailsAt (text : List Char) (index : Nat) : Error → Prop where
  /-- Its closing mark is missing. -/
  | unclosed {marks : Enclosure} {inner : List Char}
      (hfield : fieldAt? index text = some (marks.opening :: inner))
      (hclosing : marks.closing ∉ inner) : FailsAt text index .incomplete
  /-- It is a text, and no slot has room for it. -/
  | tooLong {start rest stored : List Char} {field : Field}
      (hfield : fieldAt? index text = some start) (hcut : Field.cut? start = some (field, rest))
      (htext : field.text? = some stored) (hlong : ¬Fits stored) :
      FailsAt text index .storageExhausted

section

variable {text rest later : List Char} {field : Field}

theorem fieldAt?_zero (hend : atEnd (skipPadding text) = false) :
    fieldAt? 0 text = some (skipPadding text) := by
  simp only [fieldAt?, hend, Bool.false_eq_true, if_false]

/-- Behind a comma the fields are numbered on. -/
theorem fieldAt?_succ (hend : atEnd (skipPadding text) = false)
    (hcut : Field.cut? (skipPadding text) = some (field, rest))
    (hcomma : skipPadding rest = ',' :: later) (index : Nat) :
    fieldAt? (index + 1) text = fieldAt? index later := by
  rw [fieldAt?]
  simp only [hend, hcut, hcomma, Bool.false_eq_true, if_false]

end

/-- A field is not stored exactly if it is a text without room in a slot. -/
theorem Field.parameter?_eq_none_iff {field : Field} :
    field.parameter? = none ↔ ∃ stored, field.text? = some stored ∧ ¬Fits stored := by
  have htext (cs : List Char) : Parameter.ofText? (String.ofList cs) = none ↔ ¬Fits cs := by
    unfold Parameter.ofText? Fits
    split <;> simp [*]
  cases field with
  | absent => simp [parameter?, text?]
  | quoted inner => simp [parameter?, text?, htext]
  | listed inner => simp only [parameter?, text?, htext, Option.some.injEq, exists_eq_left']
  | bare word =>
    simp only [parameter?, text?, wordParameter?]
    cases hv : Numeral.decimalValue? (Text.trimEnd word) with
    | none => cases hempty : (Text.trimEnd word).isEmpty <;> simp [htext]
    | some v =>
      have hword : (Text.trimEnd word).isEmpty = false := by
        cases hempty : (Text.trimEnd word).isEmpty with
        | false => rfl
        | true => simp [Numeral.decimalValue?, hempty] at hv
      by_cases hshort : v < 65536
      · have hint : v < 4294967296 := by omega
        simp [hword, hshort, hint]
      · by_cases hint : v < 4294967296
        · simp [hword, hshort, hint]
        · simp [hword, hshort, hint, htext]

/-- A field that a search has found stands where it says, but for one that a comma at the end
opens. -/
theorem exists_fieldAt?_of_fields {room index : Nat} {text : List Char} {field : Field}
    (h : (scan room text).fields[index]? = some field) (habsent : field ≠ .absent) :
    ∃ start rest, fieldAt? index text = some start ∧ Field.cut? start = some (field, rest) := by
  induction room generalizing index text with
  | zero => simp [scan] at h
  | succ room ih =>
    cases hend : atEnd (skipPadding text) with
    | true => simp [scan_of_atEnd hend] at h
    | false =>
      cases hcut : Field.cut? (skipPadding text) with
      | none => simp [scan_of_unclosed hend hcut] at h
      | some found =>
        obtain ⟨first, rest⟩ := found
        have hfirst : first = field → ∃ start rest, fieldAt? 0 text = some start ∧
            Field.cut? start = some (field, rest) := by
          rintro rfl
          exact ⟨_, rest, fieldAt?_zero hend, hcut⟩
        by_cases hcomma : ∃ later, skipPadding rest = ',' :: later
        · obtain ⟨later, hlater⟩ := hcomma
          rw [scan_of_comma hend hcut hlater] at h
          cases index with
          | zero =>
            refine hfirst ?_
            split at h <;> exact Option.some.inj h
          | succ index =>
            rw [fieldAt?_succ hend hcut hlater]
            split at h
            case isTrue =>
              -- the only other field is the one that the comma opens
              cases index with
              | zero => exact absurd (Option.some.inj h).symm habsent
              | succ index => cases h
            case isFalse => exact ih h
        · rw [not_exists] at hcomma
          rw [scan_of_last hend hcut hcomma] at h
          cases index with
          | zero => exact hfirst (Option.some.inj h)
          | succ index => cases h

/-- An open field at which a search has ended stands behind the fields that were found. -/
theorem exists_fieldAt?_of_unclosed {room : Nat} {text : List Char}
    (h : (scan room text).unclosed = true) :
    ∃ start, fieldAt? (scan room text).fields.length text = some start ∧
      Field.cut? start = none := by
  induction room generalizing text with
  | zero => cases h
  | succ room ih =>
    cases hend : atEnd (skipPadding text) with
    | true =>
      rw [scan_of_atEnd hend] at h
      cases h
    | false =>
      cases hcut : Field.cut? (skipPadding text) with
      | none =>
        rw [scan_of_unclosed hend hcut]
        exact ⟨_, fieldAt?_zero hend, hcut⟩
      | some found =>
        obtain ⟨field, rest⟩ := found
        by_cases hcomma : ∃ later, skipPadding rest = ',' :: later
        · obtain ⟨later, hlater⟩ := hcomma
          rw [scan_of_comma hend hcut hlater] at h ⊢
          by_cases htrailing : room ≠ 0 ∧ atEnd (skipPadding later) = true
          · rw [if_pos htrailing] at h
            cases h
          · rw [if_neg htrailing] at h ⊢
            obtain ⟨start, hstart, hopen⟩ := ih h
            exact ⟨start, (fieldAt?_succ hend hcut hlater _).trans hstart, hopen⟩
        · rw [not_exists] at hcomma
          rw [scan_of_last hend hcut hcomma] at h
          cases h

theorem failsAt_of_unclosed {room : Nat} {text : List Char}
    (h : (scan room text).unclosed = true) :
    FailsAt text (scan room text).fields.length .incomplete := by
  obtain ⟨start, hstart, hcut⟩ := exists_fieldAt?_of_unclosed h
  obtain ⟨marks, inner, rfl, hclosing⟩ := exists_enclosure_of_cut? hcut
  exact .unclosed hstart hclosing

theorem failsAt_of_parameter? {room index : Nat} {text : List Char} {field : Field}
    (h : (scan room text).fields[index]? = some field) (hfield : field.parameter? = none) :
    FailsAt text index .storageExhausted := by
  have habsent : field ≠ .absent := by
    rintro rfl
    cases hfield
  obtain ⟨start, rest, hstart, hcut⟩ := exists_fieldAt?_of_fields h habsent
  obtain ⟨stored, htext, hlong⟩ := Field.parameter?_eq_none_iff.mp hfield
  exact .tooLong hstart hcut htext hlong

/-- A search with less room comes upon an open field if it gets there. -/
theorem unclosed_scan_of_le {room more : Nat} (h : room ≤ more) (text : List Char) :
    (scan room text).unclosed = true ↔
      (scan more text).unclosed = true ∧ (scan more text).fields.length < room := by
  induction room generalizing more text with
  | zero => simp [scan]
  | succ room ih =>
    obtain ⟨more, rfl⟩ : ∃ less, more = less + 1 := ⟨more - 1, by omega⟩
    obtain hscan | hscan | ⟨field, hscan⟩ | ⟨field, later, hscan⟩ := scan_cases text
    · simp [hscan]
    · simp [hscan]
    · simp [hscan]
    · rw [hscan, hscan]
      by_cases hend : atEnd (skipPadding later) = true
      · have hlater := scan_of_atEnd hend
        cases room <;> cases more <;> simp_all
      · simpa [hend] using ih (Nat.le_of_succ_le_succ h) later

theorem parameters_take (count : Nat) (fields : List Field) :
    parameters (fields.take count) = (parameters fields).take count := by
  induction fields generalizing count with
  | nil => simp [parameters]
  | cons field fields ih =>
    cases count with
    | zero => rfl
    | succ count => cases hfield : field.parameter? <;> simp [parameters, hfield, ih]

/-- Reading stops at the first field that is too long. -/
theorem parameter?_of_length_parameters {fields : List Field}
    (h : (parameters fields).length < fields.length) :
    ∃ field, fields[(parameters fields).length]? = some field ∧ field.parameter? = none := by
  induction fields with
  | nil => cases h
  | cons field fields ih =>
    cases hfield : field.parameter? with
    | none => exact ⟨field, by simp [parameters, hfield], hfield⟩
    | some p =>
      simp only [parameters, hfield, List.length_cons, Nat.add_lt_add_iff_right] at h ⊢
      exact ih h

end Statement

namespace Slots

open Statement

variable {limit : Nat}

/-- All fields within the limit are read. With a smaller limit fewer of them are, and the same. -/
structure Completes (slots : Slots limit) (max : Nat) (text : List Char) (count : Nat) : Prop where
  result : (slots.load max text).1 = .ok count
  populated_le : (slots.load max text).2.populated ≤ count
  count_le : count ≤ min max slots.capacity
  empty : ∀ index, count ≤ index → index < slots.capacity →
    (slots.load max text).2.get index = .ok .empty
  limited : ∀ fewer ≤ max, (slots.load fewer text).1 = .ok (min count fewer) ∧
    ∀ index < fewer, (slots.load fewer text).2.get index = (slots.load max text).2.get index

/-- Reading ends at the field with this number. A limit that excludes the field lets it end well in
front of that, and no other limit makes a difference. -/
structure Fails (slots : Slots limit) (max : Nat) (text : List Char) (index : Nat)
    (cause : Error) : Prop where
  result : (slots.load max text).1 = .error cause
  index_lt : index < min max slots.capacity
  failsAt : FailsAt text index cause
  slots_eq : (slots.load max text).2 = (slots.load index text).2
  empty : ∀ later, index ≤ later → later < slots.capacity →
    (slots.load max text).2.get later = .ok .empty
  before : ∀ fewer ≤ index, (slots.load fewer text).1 = .ok fewer
  behind : ∀ fewer, index < fewer → fewer ≤ max → slots.load fewer text = slots.load max text

theorem isAllocated_of_lt {slots : Slots limit} {count : Nat} (h : count < slots.capacity) :
    slots.isAllocated = true := by
  cases hcells : slots.cells with
  | nil => simp [capacity, hcells] at h
  | cons p cells => simp [isAllocated, hcells]

theorem get_fill_of_le {slots : Slots limit} {params : List Parameter} {index : Nat}
    (h : params.length ≤ index) (hindex : index < slots.capacity) :
    (slots.fill params).get index = .ok .empty := by
  have hplace : index - params.length < slots.capacity - params.length := by omega
  simp [get, fill, List.getElem?_append_right h, hplace]

/-- The first parameters fill the first slots alike. -/
theorem get_fill_take {slots : Slots limit} {params : List Parameter} {count index : Nat}
    (h : index < count) :
    (slots.fill (params.take count)).get index = (slots.fill params).get index := by
  by_cases hindex : index < params.length
  · have htaken : index < (params.take count).length := by
      rw [List.length_take]
      omega
    rw [get_fill htaken, get_fill hindex, List.getElem_take]
  · rw [List.take_of_length_le (by omega)]

theorem populated_fill_le (slots : Slots limit) (params : List Parameter) :
    (slots.fill params).populated ≤ params.length := by
  rw [populated_fill]
  exact (List.takeWhile_prefix _).length_le

section

variable {slots : Slots limit} {max : Nat} {text : List Char}

/-- With a smaller limit, reading has the first of the fields to do with that it has to do with
otherwise. -/
theorem load_of_le (hallocated : slots.isAllocated = true) {found : Scan}
    (hfound : scan (min max slots.capacity) text = found) {fewer : Nat} (h : fewer ≤ max) :
    let room := min fewer slots.capacity
    slots.load fewer text =
      (if min room (parameters found.fields).length < min room found.fields.length then
          .error .storageExhausted
        else if found.unclosed = true ∧ found.fields.length < room then .error .incomplete
        else .ok (min room found.fields.length),
        slots.fill ((parameters found.fields).take room)) := by
  intro room
  subst hfound
  have hroom : room ≤ min max slots.capacity := by omega
  simp only [load, hallocated, if_true, unclosed_scan_of_le hroom, fields_scan_of_le hroom,
    parameters_take, List.length_take, room]

/-- What keeps the first field out that is not stored: there is no room for it, or no end of it. -/
def KeepsOut (found : Scan) (cause : Error) : Prop :=
  ((parameters found.fields).length < found.fields.length ∧ cause = .storageExhausted) ∨
    (parameters found.fields).length = found.fields.length ∧ found.unclosed = true ∧
      cause = .incomplete

theorem fails_of_keepsOut (hallocated : slots.isAllocated = true) {found : Scan}
    (hfound : scan (min max slots.capacity) text = found) {cause : Error}
    (hcause : KeepsOut found cause)
    (hfails : FailsAt text (parameters found.fields).length cause) :
    slots.Fails max text (parameters found.fields).length cause := by
  have hroom : found.fields.length ≤ min max slots.capacity := by
    rw [← hfound]
    exact length_scan_fields_le _ _
  have hopen : found.unclosed = true → found.fields.length < min max slots.capacity := by
    rw [← hfound]
    exact length_fields_lt_of_unclosed
  have hindex : (parameters found.fields).length < min max slots.capacity := by
    rcases hcause with ⟨hlt, -⟩ | ⟨heq, hunclosed, -⟩
    · omega
    · have hlt := hopen hunclosed
      omega
  have hlength := length_parameters_le found.fields
  have hbefore : ∀ fewer ≤ (parameters found.fields).length, slots.load fewer text =
      (.ok fewer, slots.fill ((parameters found.fields).take fewer)) := by
    intro fewer hfewer
    have hfew : min fewer slots.capacity = fewer := by omega
    rw [load_of_le hallocated hfound (by omega), hfew, if_neg (by omega), if_neg (by omega)]
    congr 2
    omega
  have hbehind : ∀ fewer, (parameters found.fields).length < fewer → fewer ≤ max →
      slots.load fewer text = (.error cause, slots.fill (parameters found.fields)) := by
    intro fewer hfewer hmax
    rw [load_of_le hallocated hfound hmax, List.take_of_length_le (by omega)]
    rcases hcause with ⟨hlt, rfl⟩ | ⟨heq, hunclosed, rfl⟩
    · rw [if_pos (by omega)]
    · rw [if_neg (by omega), if_pos ⟨hunclosed, by omega⟩]
  have hmax := hbehind max (by omega) (le_refl max)
  exact
    { result := by rw [hmax]
      index_lt := hindex
      failsAt := hfails
      slots_eq := by rw [hmax, hbefore _ (le_refl _), List.take_length]
      empty := by
        intro later hlater hcapacity
        rw [hmax]
        exact get_fill_of_le hlater hcapacity
      before := by
        intro fewer hfewer
        rw [hbefore fewer hfewer]
      behind := by
        intro fewer hfewer hle
        rw [hbehind fewer hfewer hle, hmax] }

/-- With no such field all fields are read. -/
theorem completes_of_stored (hallocated : slots.isAllocated = true) {found : Scan}
    (hfound : scan (min max slots.capacity) text = found)
    (hstored : (parameters found.fields).length = found.fields.length)
    (hclosed : found.unclosed = false) : slots.Completes max text found.fields.length := by
  have hroom : found.fields.length ≤ min max slots.capacity := by
    rw [← hfound]
    exact length_scan_fields_le _ _
  have hfewer : ∀ fewer ≤ max, slots.load fewer text =
      (.ok (min found.fields.length fewer),
        slots.fill ((parameters found.fields).take (min fewer slots.capacity))) := by
    intro fewer hle
    rw [load_of_le hallocated hfound hle, if_neg (by omega), if_neg (by simp [hclosed])]
    congr 2
    omega
  have hmax := hfewer max (le_refl max)
  rw [List.take_of_length_le (by omega), Nat.min_eq_left (by omega)] at hmax
  exact
    { result := by rw [hmax]
      populated_le := by
        rw [hmax, ← hstored]
        exact populated_fill_le slots _
      count_le := hroom
      empty := by
        intro index hindex hcapacity
        rw [hmax]
        exact get_fill_of_le (by omega) hcapacity
      limited := by
        intro fewer hle
        refine ⟨by rw [hfewer fewer hle], fun index hindex => ?_⟩
        rw [hfewer fewer hle, hmax]
        by_cases hcapacity : index < slots.capacity
        · exact get_fill_take (by omega)
        · rw [List.take_of_length_le (by omega)] }

end

/-- What reading comes to. Slots that are not allocated refuse it and stay as they are. Otherwise
there are as many slots as before, and either all fields within the limit have been read, or reading
has failed at one of them, for no other cause than that the field is open or too long. -/
theorem load_outcome (slots : Slots limit) (max : Nat) (text : List Char) :
    (slots.isAllocated = false → slots.load max text = (.error .invalidArgument, slots)) ∧
    (slots.isAllocated = true →
      (slots.load max text).2.capacity = slots.capacity ∧
      ((∃ count, slots.Completes max text count) ∨
        ∃ index cause, slots.Fails max text index cause)) := by
  refine ⟨fun hfree => ?_, fun hallocated => ⟨slots.capacity_load max text, ?_⟩⟩
  · simp only [load, hfree, Bool.false_eq_true, if_false]
  · generalize hfound : scan (min max slots.capacity) text = found
    rcases Nat.lt_or_eq_of_le (length_parameters_le found.fields) with hlt | heq
    · obtain ⟨field, hfield, hlong⟩ := parameter?_of_length_parameters hlt
      rw [← hfound] at hfield
      have hfails := failsAt_of_parameter? hfield hlong
      rw [hfound] at hfails
      exact Or.inr ⟨_, _, fails_of_keepsOut hallocated hfound (Or.inl ⟨hlt, rfl⟩) hfails⟩
    · cases hunclosed : found.unclosed with
      | false => exact Or.inl ⟨_, completes_of_stored hallocated hfound heq hunclosed⟩
      | true =>
        rw [← hfound] at hunclosed
        have hfails := failsAt_of_unclosed hunclosed
        rw [hfound] at hunclosed hfails
        rw [← heq] at hfails
        exact Or.inr
          ⟨_, _, fails_of_keepsOut hallocated hfound (Or.inr ⟨heq, hunclosed, rfl⟩) hfails⟩

/-- The third field is open. Limits of one and two do not get there. -/
theorem load_outcome_open :
    let slots : Slots 4 := full
    let text := "1,,\"ab".toList
    slots.Fails 9 text 2 .incomplete ∧
      (slots.load 9 text).2 = full.fill [.short 1, .empty] ∧
      (unallocated : Slots 4).load 9 text = (.error .invalidArgument, unallocated) := by
  intro slots text
  refine ⟨?_, by decide, (load_outcome unallocated 9 text).1 rfl⟩
  have hresult : (slots.load 9 text).1 = .error .incomplete := by decide
  obtain ⟨-, ⟨count, hcompletes⟩ | ⟨index, cause, hfails⟩⟩ := (load_outcome slots 9 text).2 rfl
  · cases hresult.symm.trans hcompletes.result
  · obtain rfl := Except.error.inj (hresult.symm.trans hfails.result)
    have hge : 2 ≤ index := by
      by_contra hlt
      exact absurd (hfails.behind 2 (by omega) (by omega)) (by decide)
    have hle : index ≤ 2 := by
      by_contra hgt
      exact absurd (hfails.before 3 (by omega)) (by decide)
    obtain rfl := le_antisymm hle hge
    exact hfails

end Slots

end CellModem
