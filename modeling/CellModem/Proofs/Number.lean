import Mathlib
import CellModem.Proofs.Outcome
import CellModem.Proofs.Rendering
import CellModem.Proofs.Walk

/-!
Digits among the fields of a statement. It is the value of bare digits that decides what they
become, and leading zeros do not count: the slot holds a number as long as 32 bits do, and the
digits themselves after that, if it has room for them. Digits between quotation marks are never a
number.
-/

namespace CellModem

namespace Numeral

/-- The number that decimal digits make up, the last one counting ones. -/
def value (word : List Char) : Nat :=
  Nat.ofDigits 10 (word.map fun c => c.toNat - 48).reverse

theorem isDecimalDigit_iff {c : Char} : isDecimalDigit c = true ↔ '0' ≤ c ∧ c ≤ '9' := by
  rw [isDecimalDigit, decimalDigit?]
  split <;> simp [*]

/-- The numerals are the digits, and they are read as their value. -/
theorem decimalValue?_eq_some_iff {word : List Char} {v : Nat} :
    decimalValue? word = some v ↔
      word ≠ [] ∧ (∀ c ∈ word, isDecimalDigit c = true) ∧ value word = v := by
  have hread (hdigits : ∀ c ∈ word, isDecimalDigit c = true) :
      valueFrom? 10 decimalDigit? 0 word = some (value word) := by
    have hdigit : ∀ c : { c // c ∈ word }, decimalDigit? c.val = some (c.val.toNat - 48) := by
      intro c
      rw [decimalDigit?, if_pos (isDecimalDigit_iff.mp (hdigits c.val c.property))]
    have hvalue : valueFrom? 10 decimalDigit? 0 (word.attach.map Subtype.val) = _ :=
      valueFrom?_zero_of_digits hdigit word.attach
    have hvalues : word.attach.map (fun c => c.val.toNat - 48) = word.map fun c => c.toNat - 48 :=
      List.attach_map_val (f := fun c : Char => c.toNat - 48)
    rwa [List.attach_map_subtype_val, hvalues] at hvalue
  constructor
  · intro h
    have hdigits : ∀ c ∈ word, isDecimalDigit c = true := by
      intro c hc
      by_contra hother
      rw [decimalValue?_eq_none ⟨c, hc, Bool.eq_false_iff.mpr hother⟩] at h
      cases h
    unfold decimalValue? at h
    split at h
    case isTrue => cases h
    case isFalse hne =>
      rw [hread hdigits] at h
      exact ⟨by simpa using hne, hdigits, Option.some.inj h⟩
  · rintro ⟨hne, hdigits, rfl⟩
    rw [decimalValue?, if_neg (by simpa using hne), hread hdigits]

end Numeral

namespace Statement

variable {text word start rest : List Char} {field : Field} {index : Nat}

/-- The field with this number is the word alone, up to white space behind it. -/
def BareAt (text : List Char) (index : Nat) (word : List Char) : Prop :=
  ∃ blanks rest, fieldAt? index text = some (word ++ (blanks ++ rest)) ∧
    (∀ c ∈ blanks, Text.isBlank c = true ∧ inWord c = true) ∧ Stops rest

/-- The field with this number is the word between quotation marks, up to white space behind it. -/
def QuotedAt (text : List Char) (index : Nat) (word : List Char) : Prop :=
  ∃ blanks rest, fieldAt? index text = some ('"' :: (word ++ blanks ++ '"' :: rest)) ∧
    ∀ c ∈ blanks, Text.isBlank c = true

/-- A search with enough room finds the field that stands there. -/
theorem fields_of_fieldAt? (hat : fieldAt? index text = some start)
    (hcut : Field.cut? start = some (field, rest)) {room : Nat} (hroom : index < room) :
    (scan room text).fields[index]? = some field := by
  induction index generalizing room text with
  | zero =>
    obtain ⟨room, rfl⟩ : ∃ less, room = less + 1 := ⟨room - 1, by omega⟩
    cases hend : atEnd (skipPadding text) with
    | true => simp [fieldAt?, hend] at hat
    | false =>
      rw [fieldAt?_zero hend, Option.some.injEq] at hat
      obtain ⟨later, hfields⟩ := Opens.exists_fields ⟨hend, rest, hat ▸ hcut, rfl⟩ room
      rw [hfields]
      rfl
  | succ index ih =>
    obtain ⟨room, rfl⟩ : ∃ less, room = less + 1 := ⟨room - 1, by omega⟩
    rw [fieldAt?] at hat
    split at hat
    case isTrue => cases hat
    case isFalse hend =>
      rw [Bool.not_eq_true] at hend
      split at hat
      case h_1 => cases hat
      case h_2 first behind hfirst =>
        split at hat
        case h_2 => cases hat
        case h_1 later hcomma =>
          -- a field stands behind this comma, so that it does not open an absent one
          have hmore : atEnd (skipPadding later) = false := by
            cases hlater : atEnd (skipPadding later) with
            | false => rfl
            | true => cases index <;> simp [fieldAt?, hlater] at hat
          rw [scan_of_comma hend hfirst hcomma, if_neg (by simp [hmore])]
          exact ih hat (Nat.lt_of_succ_lt_succ hroom)

/-- A field that is cut off cannot be read if and only if it is too long. -/
theorem failsAt_iff (hat : fieldAt? index text = some start)
    (hcut : Field.cut? start = some (field, rest)) {cause : Error} :
    FailsAt text index cause ↔ field.parameter? = none ∧ cause = .storageExhausted := by
  rw [Field.parameter?_eq_none_iff]
  constructor
  · rintro (⟨hopen, hclosing⟩ | ⟨hother, hcutOther, htext, hlong⟩)
    case unclosed marks inner =>
      rw [hat, Option.some.injEq] at hopen
      rw [hopen, marks.cut?_opening, splitAt?_eq_none_iff.mpr hclosing] at hcut
      cases hcut
    case tooLong =>
      rw [hat, Option.some.injEq] at hother
      rw [← hother, hcut, Option.some.injEq, Prod.mk.injEq] at hcutOther
      obtain ⟨rfl, -⟩ := hcutOther
      exact ⟨⟨_, htext, hlong⟩, rfl⟩
  · rintro ⟨⟨stored, htext, hlong⟩, rfl⟩
    exact .tooLong hat hcut htext hlong

/-- With nothing in front of it that is too long, a field gets as far as its own parameter. -/
theorem getElem?_parameters {fields : List Field}
    (hfield : fields[index]? = some field)
    (hbefore : ∀ earlier < index, ∀ first, fields[earlier]? = some first →
      first.parameter? ≠ none) :
    (parameters fields)[index]? = field.parameter? := by
  induction fields generalizing index with
  | nil => cases hfield
  | cons first fields ih =>
    cases index with
    | zero =>
      obtain rfl := Option.some.inj hfield
      cases hfirst : first.parameter? with
      | none => simp [parameters, hfirst]
      | some p => simp [parameters, hfirst]
    | succ index =>
      obtain ⟨p, hfirst⟩ := Option.ne_none_iff_exists'.mp
        (hbefore 0 (Nat.succ_pos index) first rfl)
      simp only [parameters, hfirst, List.getElem?_cons_succ]
      exact ih hfield fun earlier hearlier =>
        hbefore (earlier + 1) (Nat.succ_lt_succ hearlier)

section

variable {blanks : List Char} (hdigits : ∀ c ∈ word, Numeral.isDecimalDigit c = true)

include hdigits

theorem trimEnd_digits (hblanks : ∀ c ∈ blanks, Text.isBlank c = true) :
    Text.trimEnd (word ++ blanks) = word := by
  rw [Text.trimEnd_append_of_blank hblanks, Text.trimEnd_eq_self]
  intro c hc
  exact (inWord_of_isDecimalDigit (hdigits c (List.mem_of_getLast? hc))).2.2.2.2

theorem cut?_digits (hword : word ≠ [])
    (hblanks : ∀ c ∈ blanks, Text.isBlank c = true ∧ inWord c = true) (hstops : Stops rest) :
    Field.cut? (word ++ (blanks ++ rest)) = some (.bare (word ++ blanks), rest) := by
  obtain ⟨c, cs, hfirst⟩ := List.exists_cons_of_ne_nil hword
  obtain ⟨-, -, hquote, hparen, -⟩ :=
    inWord_of_isDecimalDigit (hdigits c (by rw [hfirst]; exact List.mem_cons_self))
  rw [← List.append_assoc]
  refine cut?_word (by rw [hfirst, List.cons_append]) ?_ hquote hparen hstops
  intro d hd
  rcases List.mem_append.mp hd with hdigit | hblank
  · exact (inWord_of_isDecimalDigit (hdigits d hdigit)).1
  · exact (hblanks d hblank).2

/-- Bare digits become what their value says. -/
theorem parameter?_bare_digits (hword : word ≠ [])
    (hblanks : ∀ c ∈ blanks, Text.isBlank c = true) :
    (Field.bare (word ++ blanks)).parameter? =
      if Numeral.value word < 65536 then some (.short (UInt16.ofNat (Numeral.value word)))
      else if Numeral.value word < 2 ^ 32 then
        some (.int (UInt32.ofNat (Numeral.value word)))
      else if word.length ≤ Limits.text then some (.text (String.ofList word)) else none := by
  have hvalue := Numeral.decimalValue?_eq_some_iff.mpr ⟨hword, hdigits, rfl⟩
  have hsize := Numeral.utf8ByteSize_of_all (List.all_eq_true.mpr hdigits)
  simp only [Field.parameter?, trimEnd_digits hdigits hblanks, List.isEmpty_iff, hword,
    if_false, wordParameter?, hvalue, Parameter.ofText?, hsize, Nat.reducePow]

/-- Digits between quotation marks stay digits. -/
theorem parameter?_quoted_digits (hblanks : ∀ c ∈ blanks, Text.isBlank c = true) :
    (Field.quoted (word ++ blanks)).parameter? =
      if word.length ≤ Limits.text then some (.text (String.ofList word)) else none := by
  have hsize := Numeral.utf8ByteSize_of_all (List.all_eq_true.mpr hdigits)
  simp only [Field.parameter?, trimEnd_digits hdigits hblanks, Parameter.ofText?, hsize]

end

/-- White space and digits go on up to the closing mark. -/
theorem cut?_quoted_digits {blanks : List Char} (rest : List Char)
    (hdigits : ∀ c ∈ word, Numeral.isDecimalDigit c = true)
    (hblanks : ∀ c ∈ blanks, Text.isBlank c = true) :
    Field.cut? ('"' :: (word ++ blanks ++ '"' :: rest)) =
      some (.quoted (word ++ blanks), rest) := by
  have hclosing : '"' ∉ word ++ blanks := by
    rw [List.mem_append]
    rintro (hdigit | hblank)
    · exact absurd (hdigits _ hdigit) (by decide)
    · exact absurd (hblanks _ hblank) (by decide)
  rw [Field.cut?, splitAt?_append hclosing]
  rfl

end Statement

namespace Slots

open Statement

variable {limit : Nat} {slots : Slots limit} {max index : Nat} {text start rest : List Char}
  {field : Field}

/-- Whether all fields that are asked for are there does not matter to the slots. -/
theorem loadExactly_snd (slots : Slots limit) (count : Nat) (text : List Char) :
    (slots.loadExactly count text).2 = (slots.load count text).2 := by
  unfold loadExactly
  split
  case h_1 hload => rw [hload]
  case h_2 hload =>
    rw [hload]
    split <;> rfl

section

variable (hindex : index < min max slots.capacity)
  (hbefore : ∀ earlier < index, ∀ cause, ¬FailsAt text earlier cause)
  (hat : fieldAt? index text = some start) (hcut : Field.cut? start = some (field, rest))

include hindex hbefore hat hcut

theorem getElem?_parameters_scan :
    (parameters (scan (min max slots.capacity) text).fields)[index]? = field.parameter? := by
  apply getElem?_parameters (fields_of_fieldAt? hat hcut hindex)
  intro earlier hearlier first hfirst hnone
  exact hbefore earlier hearlier _ (failsAt_of_parameter? hfirst hnone)

/-- A field that reading gets to and a slot has room for is in its slot afterwards, whatever comes
behind it. -/
theorem get_load_of_parameter? {p : Parameter} (hp : field.parameter? = some p) :
    (slots.load max text).2.get index = .ok p := by
  have hparams := getElem?_parameters_scan hindex hbefore hat hcut
  rw [hp] at hparams
  obtain ⟨hlength, hparam⟩ := List.getElem?_eq_some_iff.mp hparams
  have hallocated : slots.isAllocated = true :=
    isAllocated_of_lt (Nat.lt_of_lt_of_le hindex (Nat.min_le_right _ _))
  simp only [load, hallocated, if_true]
  rw [get_fill hlength, hparam]

/-- Otherwise reading fails there, for want of room. -/
theorem fails_load_iff :
    slots.Fails max text index .storageExhausted ↔ field.parameter? = none := by
  constructor
  · exact fun hfails => ((failsAt_iff hat hcut).mp hfails.failsAt).1
  · intro hnone
    have hparams := getElem?_parameters_scan hindex hbefore hat hcut
    have hfield := fields_of_fieldAt? hat hcut hindex
    have hbound := (List.getElem?_eq_some_iff.mp hfield).1
    -- the parameters end right in front of this field
    have hlength : (parameters (scan (min max slots.capacity) text).fields).length = index := by
      refine le_antisymm (List.getElem?_eq_none_iff.mp (hparams.trans hnone)) ?_
      by_contra hless
      have hshort : (parameters (scan (min max slots.capacity) text).fields).length <
        (scan (min max slots.capacity) text).fields.length := by omega
      obtain ⟨first, hfirst, hlong⟩ := parameter?_of_length_parameters hshort
      exact hbefore _ (by omega) _ (failsAt_of_parameter? hfirst hlong)
    have hallocated : slots.isAllocated = true :=
      isAllocated_of_lt (Nat.lt_of_lt_of_le hindex (Nat.min_le_right _ _))
    have hkept : KeepsOut (scan (min max slots.capacity) text) .storageExhausted :=
      Or.inl ⟨by omega, rfl⟩
    have hfails := fails_of_keepsOut hallocated rfl hkept
      (hlength ▸ (failsAt_iff hat hcut).mpr ⟨hnone, rfl⟩)
    rwa [hlength] at hfails

end

/-- Numbers go by their value. Bare digits, however many zeros they begin with, become a number of
the small kind below 65536 and of the large kind below 2 to the power of 32. From there on they stay
the digits that they are, and so do those between quotation marks in any case; it is only for these
that reading fails, at more of them than a slot has room for. This holds of every field that reading
comes to, whatever stands behind it; asking for an exact number of fields leaves the same. -/
theorem load_digits (slots : Slots limit) (max index : Nat) (text word : List Char)
    (hindex : index < min max slots.capacity)
    (hbefore : ∀ earlier < index, ∀ cause, ¬FailsAt text earlier cause)
    (hword : word ≠ []) (hdigits : ∀ c ∈ word, '0' ≤ c ∧ c ≤ '9') :
    let after := (slots.load max text).2
    let v := Numeral.value word
    (BareAt text index word →
      (v < 65536 → after.get index = .ok (.short (UInt16.ofNat v))) ∧
      (65536 ≤ v → v < 2 ^ 32 → after.get index = .ok (.int (UInt32.ofNat v))) ∧
      (2 ^ 32 ≤ v → word.length ≤ Limits.text →
        after.get index = .ok (.text (String.ofList word))) ∧
      (slots.Fails max text index .storageExhausted ↔ 2 ^ 32 ≤ v ∧ Limits.text < word.length)) ∧
    (QuotedAt text index word →
      (word.length ≤ Limits.text → after.get index = .ok (.text (String.ofList word))) ∧
      (slots.Fails max text index .storageExhausted ↔ Limits.text < word.length)) ∧
    (slots.loadExactly max text).2 = after := by
  intro after v
  have hdecimal : ∀ c ∈ word, Numeral.isDecimalDigit c = true :=
    fun c hc => Numeral.isDecimalDigit_iff.mpr (hdigits c hc)
  refine ⟨?bare, ?quoted, ?exactly⟩
  case bare =>
    rintro ⟨blanks, rest, hat, hblanks, hstops⟩
    have hcut := cut?_digits hdecimal hword hblanks hstops
    have hparam := parameter?_bare_digits hdecimal hword fun c hc => (hblanks c hc).1
    have hget {p : Parameter} := get_load_of_parameter? (p := p) hindex hbefore hat hcut
    refine ⟨fun hshort => ?_, fun hlarge hint => ?_, fun hlarge hfits => ?_, ?_⟩
    · exact hget (by rw [hparam, if_pos hshort])
    · exact hget (by rw [hparam, if_neg (by omega), if_pos hint])
    · exact hget (by rw [hparam, if_neg (by omega), if_neg (by omega), if_pos hfits])
    · rw [fails_load_iff hindex hbefore hat hcut, hparam]
      split_ifs with hshort hint hfits
      · exact iff_of_false (by simp) (by omega)
      · exact iff_of_false (by simp) (by omega)
      · exact iff_of_false (by simp) (by omega)
      · exact iff_of_true rfl (by omega)
  case quoted =>
    rintro ⟨blanks, rest, hat, hblanks⟩
    have hcut := cut?_quoted_digits rest hdecimal hblanks
    have hparam := parameter?_quoted_digits hdecimal hblanks
    refine ⟨fun hfits => ?_, ?_⟩
    · exact get_load_of_parameter? hindex hbefore hat hcut (by rw [hparam, if_pos hfits])
    · rw [fails_load_iff hindex hbefore hat hcut, hparam, ite_eq_right_iff]
      simp
  case exactly => exact loadExactly_snd slots max text

/-- Zeros in front do not make a number long, and the field behind it stays a text. -/
theorem load_digits_mixed :
    let text := " 00065536 ,\"12\"\r\n".toList
    let after := ((full : Slots 4).load 2 text).2
    after.get 0 = .ok (.int 65536) ∧ after.get 1 = .ok (.text "12") := by
  intro text after
  have hstart : fieldAt? 0 text =
      some ("00065536".toList ++ ([' '] ++ ',' :: "\"12\"\r\n".toList)) := by decide +kernel
  have hbehind : fieldAt? 1 text = some ('"' :: ("12".toList ++ [] ++ '"' :: "\r\n".toList)) := by
    decide +kernel
  have hlarge : Numeral.value "00065536".toList = 65536 := by decide +kernel
  have hfirst := load_digits (full : Slots 4) 2 0 text "00065536".toList (by decide)
    (fun _ h => absurd h (Nat.not_lt_zero _)) (by simp) (by simp)
  have hint := (hfirst.1 ⟨_, _, hstart, List.forall_mem_singleton.mpr (by decide),
    stops_comma _⟩).2.1 (by omega) (by omega)
  rw [hlarge] at hint
  have hcut : Field.cut? ("00065536".toList ++ ([' '] ++ ',' :: "\"12\"\r\n".toList)) =
      some (.bare "00065536 ".toList, ',' :: "\"12\"\r\n".toList) := by decide +kernel
  have hbefore : ∀ earlier < 1, ∀ cause, ¬FailsAt text earlier cause := by
    intro earlier hearlier cause hfails
    obtain rfl := Nat.lt_one_iff.mp hearlier
    exact absurd ((failsAt_iff hstart hcut).mp hfails).1 (by decide +kernel)
  have hsecond := load_digits (full : Slots 4) 2 1 text "12".toList (by decide) hbefore
    (by simp) (by simp)
  exact ⟨hint, (hsecond.2.1 ⟨_, _, hbehind, by simp⟩).1 (by simp [Limits.text])⟩

/-- Digits between quotation marks are not kept if there are too many of them, and a number behind a
field that is too long is not read. -/
theorem load_digits_too_long :
    let quoted := '"' :: (List.replicate 65 '0' ++ ['"'])
    QuotedAt quoted 0 (List.replicate 65 '0') ∧ BareAt (quoted ++ [',', '5']) 1 ['5'] ∧
      (full : Slots 1).load 1 quoted = (.error .storageExhausted, full) ∧
      (full : Slots 2).load 2 (quoted ++ [',', '5']) = (.error .storageExhausted, full) := by
  intro quoted
  have hquoted : QuotedAt quoted 0 (List.replicate 65 '0') :=
    ⟨[], [], by decide +kernel, by simp⟩
  have hbare : BareAt (quoted ++ [',', '5']) 1 ['5'] :=
    ⟨[], [], by decide +kernel, by simp, stops_of_atEnd rfl⟩
  exact ⟨hquoted, hbare, by decide +kernel, by decide +kernel⟩

end Slots

end CellModem
