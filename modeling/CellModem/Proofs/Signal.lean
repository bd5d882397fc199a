import Mathlib
import CellModem.Proofs.Answer
import CellModem.Proofs.Number
import CellModem.Signal

/-!
Which lines are signal reports, and how the power is written that they stand for. A report opens,
behind white space of any kind, with the name of the notice, and its statement begins behind the
first ASCII white space after that; of its two fields the first one is the number. The power is
computed over the integers, and written if 16 bits hold it.
-/

namespace CellModem

/-- The bytes that are text are those of a text. -/
theorem Octets.text?_eq_some_iff {bytes : Octets} {s : String} :
    bytes.text? = some s ↔ bytes = ofText s := by
  constructor
  · intro h
    simp only [text?, String.fromUTF8?] at h
    split at h
    case isTrue hvalid =>
      rw [← Option.some.inj h]
      rfl
    case isFalse => cases h
  · rintro rfl
    exact text?_ofText s

namespace Numeral

theorem signedDecimal_eq_toString (i : Int) : String.ofList (signedDecimal i) = toString i := by
  cases i with
  | ofNat n =>
    rw [signedDecimal, if_neg (by simp), decimal_eq_toDigits]
    rfl
  | negSucc n =>
    rw [signedDecimal, if_pos (Int.negSucc_lt_zero n), decimal_eq_toDigits, String.ofList_cons]
    rfl

/-- A numeral of 16 bits is a sign and five digits at most. -/
theorem utf8ByteSize_signedDecimal {i : Int} (hlow : -32768 ≤ i) (hhigh : i ≤ 32767) :
    (String.ofList (signedDecimal i)).utf8ByteSize ≤ 6 := by
  have hlength : (decimal i.natAbs).length ≤ 5 := by
    rw [decimal_eq_toDigits, Nat.length_toDigits_le_iff (by decide) (by decide)]
    omega
  have hsize : (String.ofList (decimal i.natAbs)).utf8ByteSize = (decimal i.natAbs).length :=
    utf8ByteSize_of_all (List.all_eq_true.mpr fun c hc => isDecimalDigit_of_mem_decimal hc)
  rw [signedDecimal]
  split
  · rw [String.ofList_cons, String.utf8ByteSize_append, String.utf8ByteSize_singleton, hsize]
    have hsign : '-'.utf8Size = 1 := rfl
    omega
  · omega

end Numeral

namespace Text

/-- What trimming the end takes away is blank. -/
theorem exists_append_trimEnd (cs : List Char) :
    ∃ blanks, cs = trimEnd cs ++ blanks ∧ ∀ c ∈ blanks, isBlank c = true := by
  refine ⟨(cs.reverse.takeWhile isBlank).reverse, ?_, ?_⟩
  · rw [trimEnd, ← List.reverse_append, List.takeWhile_append_dropWhile, List.reverse_reverse]
  · intro c hc
    exact List.mem_takeWhile_imp (List.mem_reverse.mp hc)

end Text

namespace Statement

variable {text word : List Char} {field : Field}

/-- A bare field goes up to where a bare word stops. -/
theorem append_of_cut?_bare {start rest : List Char}
    (h : Field.cut? start = some (.bare word, rest)) :
    start = word ++ rest ∧ (∀ c ∈ word, inWord c = true) ∧ Stops rest := by
  obtain ⟨marks, inner, rfl⟩ | hbare := enclosed_or_bare start
  · rw [marks.cut?_opening] at h
    obtain ⟨found, -, heq⟩ := Option.map_eq_some_iff.mp h
    cases marks <;> cases heq
  · rw [cut?_of_bare hbare, Option.some.injEq, Prod.mk.injEq] at h
    obtain ⟨hword, rfl⟩ := h
    split at hword
    case isTrue => cases hword
    case isFalse =>
      obtain rfl := Field.bare.inj hword
      refine ⟨List.takeWhile_append_dropWhile.symm, fun c hc => List.mem_takeWhile_imp hc, ?_⟩
      intro c hc
      have hnot := List.head?_dropWhile_not inWord start
      rw [hc] at hnot
      simpa using hnot

/-- Short numbers come from bare digits and from nothing else. -/
theorem parameter?_eq_short_iff {raw : UInt16} :
    field.parameter? = some (.short raw) ↔ ∃ word blanks, field = .bare (word ++ blanks) ∧
      word ≠ [] ∧ (∀ c ∈ word, Numeral.isDecimalDigit c = true) ∧
      (∀ c ∈ blanks, Text.isBlank c = true) ∧ Numeral.value word = raw.toNat := by
  have hraw : raw.toNat < 65536 := raw.toNat_lt
  constructor
  · intro h
    cases field with
    | absent => cases h
    | quoted inner => cases Parameter.eq_text_of_ofText? h
    | listed inner => cases Parameter.eq_text_of_ofText? h
    | bare word =>
      obtain ⟨blanks, hword, hblanks⟩ := Text.exists_append_trimEnd word
      cases hvalue : Numeral.decimalValue? (Text.trimEnd word) with
      | none =>
        simp only [Field.parameter?, wordParameter?, hvalue] at h
        split at h
        · cases h
        · cases Parameter.eq_text_of_ofText? h
      | some v =>
        obtain ⟨hne, hdigits, rfl⟩ := Numeral.decimalValue?_eq_some_iff.mp hvalue
        rw [hword, parameter?_bare_digits hdigits hne hblanks] at h
        split at h
        case isTrue hshort =>
          obtain rfl := Parameter.short.inj (Option.some.inj h)
          refine ⟨_, _, congrArg Field.bare hword, hne, hdigits, hblanks, ?_⟩
          rw [UInt16.toNat_ofNat', Nat.mod_eq_of_lt hshort]
        case isFalse =>
          split at h
          · cases h
          · split at h <;> cases h
  · rintro ⟨word, blanks, rfl, hne, hdigits, hblanks, hvalue⟩
    rw [parameter?_bare_digits hdigits hne hblanks, hvalue, if_pos hraw, UInt16.ofNat_toNat]

end Statement

namespace Slots

open Statement

variable {limit : Nat} {slots : Slots limit}

theorem short_fill_eq_ok_iff {params : List Parameter} {index : Nat}
    (hindex : index < params.length) {raw : UInt16} :
    (slots.fill params).short index = .ok raw ↔ params[index] = .short raw := by
  simp only [short, get_fill hindex]
  cases params[index] <;> simp

/-- What is read into a slot as a short number is a field of bare digits with that value. -/
theorem short_loadExactly_eq_ok_iff {after : Slots limit} {count index : Nat} {text : List Char}
    (hindex : index < count) (hload : slots.loadExactly count text = (.ok (), after))
    {raw : UInt16} :
    after.short index = .ok raw ↔ ∃ word, word ≠ [] ∧ (∀ c ∈ word, '0' ≤ c ∧ c ≤ '9') ∧
      BareAt text index word ∧ Numeral.value word = raw.toNat := by
  obtain ⟨-, -, params, rfl, hpresents, rfl⟩ := loadExactly_eq_ok_iff.mp hload
  obtain ⟨field, hfield, hparam⟩ := hpresents.field hindex
  have hshort : params[index] = .short raw ↔ field.parameter? = some (.short raw) := by
    rw [hparam, Option.some.injEq]
  rw [short_fill_eq_ok_iff hindex, hshort, parameter?_eq_short_iff]
  constructor
  · rintro ⟨word, blanks, rfl, hne, hdigits, hblanks, hvalue⟩
    obtain ⟨start, rest, hat, hcut⟩ := exists_fieldAt?_of_fields hfield (by simp)
    obtain ⟨rfl, hinside, hstops⟩ := append_of_cut?_bare hcut
    have hbare : BareAt text index word :=
      ⟨blanks, rest, by rw [hat, List.append_assoc],
        fun c hc => ⟨hblanks c hc, hinside c (List.mem_append_right word hc)⟩, hstops⟩
    exact ⟨word, hne, fun c hc => Numeral.isDecimalDigit_iff.mp (hdigits c hc), hbare, hvalue⟩
  · rintro ⟨word, hne, hdigits, ⟨blanks, rest, hat, hblanks, hstops⟩, hvalue⟩
    have hdecimal : ∀ c ∈ word, Numeral.isDecimalDigit c = true :=
      fun c hc => Numeral.isDecimalDigit_iff.mpr (hdigits c hc)
    have hcut := cut?_digits hdecimal hne hblanks hstops
    have hfound := fields_of_fieldAt? hat hcut hindex
    rw [hfield, Option.some.injEq] at hfound
    exact ⟨word, blanks, hfound, hne, hdecimal, fun c hc => (hblanks c hc).1, hvalue⟩

end Slots

namespace Signal

open Statement

variable {limit : Nat}

/-- There is a power if the signal was measured and 16 bits hold the difference. -/
theorem dbm?_eq_some_iff {signal : Signal} {offset power : Int16} :
    signal.dbm? offset = some power ↔
      signal.raw.toNat ≤ 97 ∧ power.toInt = signal.raw.toNat - offset.toInt := by
  have hhighest : highest < signal.raw ↔ ¬signal.raw.toNat ≤ 97 := by
    rw [UInt16.lt_iff_toNat_lt, Nat.not_le]
    rfl
  have hlow := power.le_toInt
  have hhigh := power.toInt_lt
  simp only [dbm?]
  split
  case isTrue hmany =>
    rw [hhighest] at hmany
    simp [hmany]
  case isFalse hmeasured =>
    rw [hhighest, not_not] at hmeasured
    split
    case isTrue hpower =>
      have hback := Int16.toInt_ofInt_of_le hpower.1 (Int.lt_add_one_of_le hpower.2)
      rw [Option.some.injEq, ← Int16.toInt_inj, hback, eq_comm]
      exact (and_iff_right hmeasured).symm
    case isFalse hpower =>
      refine iff_of_false (Option.some_ne_none _).symm ?_
      rintro ⟨-, heq⟩
      omega

/-- The power is written as a number of the integers: no step of the computation and no room for the
text restricts it. -/
theorem render?_eq_some_iff {signal : Signal} {offset : Int16} {text : String} :
    signal.render? offset = some text ↔
      signal.raw.toNat ≤ 97 ∧ -32768 ≤ signal.raw.toNat - offset.toInt ∧
        signal.raw.toNat - offset.toInt ≤ 32767 ∧
        text = toString (signal.raw.toNat - offset.toInt) := by
  have hrender : signal.render? offset = some text ↔
      ∃ power, signal.dbm? offset = some power ∧ text = toString power.toInt := by
    unfold render?
    cases signal.dbm? offset with
    | none => simp
    | some power =>
      have hsize := Numeral.utf8ByteSize_signedDecimal power.le_toInt
        (Int.le_of_lt_add_one power.toInt_lt)
      rw [Numeral.signedDecimal_eq_toString] at hsize
      have hfits : (toString power.toInt).utf8ByteSize ≤ Limits.power :=
        Nat.le_trans hsize (by decide)
      simp only [Option.bind_eq_bind, Option.bind_some, Numeral.signedDecimal_eq_toString,
        if_pos hfits, Option.some.injEq, exists_eq_left']
      exact eq_comm
  rw [hrender]
  constructor
  · rintro ⟨power, hpower, rfl⟩
    obtain ⟨hmeasured, heq⟩ := dbm?_eq_some_iff.mp hpower
    have hlow := power.le_toInt
    have hhigh := power.toInt_lt
    exact ⟨hmeasured, by omega, by omega, by rw [heq]⟩
  · rintro ⟨hmeasured, hlow, hhigh, rfl⟩
    have hback := Int16.toInt_ofInt_of_le hlow (Int.lt_add_one_of_le hhigh)
    exact ⟨_, dbm?_eq_some_iff.mpr ⟨hmeasured, hback⟩, by rw [hback]⟩

/-- Which lines are reports, and of what signal, whatever slots there are for the parameters and
whatever these held before; and what is written for the signal then. -/
theorem read_report_iff (line : Octets) (raw : UInt16) (slots : Slots limit) :
    ((read line slots).1 = .ok ⟨raw⟩ ↔ ∃ s, line = Octets.ofText s ∧
      "%CESQ".toList <+: Text.trimStart s.toList ∧
      ∃ statement, statement = afterPrefix (Text.trimStart s.toList) ∧
        (slots.loadExactly 2 statement).1 = .ok () ∧
        ∃ word, word ≠ [] ∧ (∀ c ∈ word, '0' ≤ c ∧ c ≤ '9') ∧ BareAt statement 0 word ∧
          Numeral.value word = raw.toNat) ∧
    ∀ (offset : Int16) (text : String), (Signal.mk raw).render? offset = some text ↔
      raw.toNat ≤ 97 ∧ -32768 ≤ raw.toNat - offset.toInt ∧ raw.toNat - offset.toInt ≤ 32767 ∧
        text = toString (raw.toNat - offset.toInt) := by
  refine ⟨?_, fun offset text => render?_eq_some_iff⟩
  simp only [← Octets.text?_eq_some_iff, exists_eq_left]
  unfold read
  cases htext : line.text? with
  | none => simp
  | some s =>
    simp only [Option.some.injEq, exists_eq_left']
    by_cases hmark : Line.noticeMark.toList.isPrefixOf (Text.trimStart s.toList) = true
    case neg =>
      rw [if_neg hmark]
      refine iff_of_false (by simp) ?_
      rintro ⟨hopening, -⟩
      exact hmark (List.isPrefixOf_iff_prefix.mpr hopening)
    case pos =>
      have hopening : "%CESQ".toList <+: Text.trimStart s.toList :=
        List.isPrefixOf_iff_prefix.mp hmark
      rw [if_pos hmark]
      generalize afterPrefix (Text.trimStart s.toList) = statement
      have hcount : Item.rsrp.query.count = 2 := rfl
      rw [hcount]
      cases hload : slots.loadExactly 2 statement with
      | mk result after =>
        cases result with
        | error cause => simp
        | ok done =>
          have hindex : Item.rsrp.query.index = 0 := rfl
          have hshort : after.short 0 = .ok raw ↔ _ :=
            Slots.short_loadExactly_eq_ok_iff Nat.zero_lt_two hload
          simp only [hopening, hindex, ← hshort, true_and]
          cases after.short 0 <;> simp [Except.map]

/-- An ideographic space in front of the name, zeros in front of the number, and a tab behind it. -/
example :
    (read (Octets.ofText "\u3000%CESQ: 0064\t,3\r")
      ({ cells := [.text "old", .int 9] } : Slots 2)).1 = .ok ⟨64⟩ := by
  decide +kernel

end Signal

end CellModem
