import CellModem.Proofs.Rendering

/-!
Hexadecimal words by their value. The fields that have one are a plus sign or none, and digits of
either case behind it; at most eight of them fit into a field, so that none is too large for 32
bits, and a machine that checks each step of reading finds no overflow.
-/

namespace CellModem

open Profile (HexDigit)

namespace Numeral

/-- Reading digits in 32 bits, behind those that make up `acc`. There is no result where a step
overflows. -/
def hexWordFrom? (acc : UInt32) : List Char → Option (Except HexFault UInt32)
  | [] => some (.ok acc)
  | c :: cs =>
    match hexDigit? c with
    | none => some (.error .invalidDigit)
    | some d =>
      if 16 * acc.toNat + d < 2 ^ 32 then hexWordFrom? (16 * acc + UInt32.ofNat d) cs else none

/-- The number that hexadecimal digits make up, the last one counting ones. -/
def hexValue (digits : List HexDigit) : Nat :=
  Nat.ofDigits 16 (digits.map fun digit => digit.value.val).reverse

theorem hexValue_lt (digits : List HexDigit) : hexValue digits < 16 ^ digits.length := by
  have hbound := Nat.ofDigits_lt_base_pow_length (b := 16)
    (l := (digits.map fun digit => digit.value.val).reverse) (by decide) (by simp)
  rwa [List.length_reverse, List.length_map] at hbound

theorem hexDigit?_char (digit : HexDigit) : hexDigit? digit.char = some digit.value.val :=
  digit.char_spec.1

theorem toNat_of_hexDigit? {c : Char} {d : Nat} (h : hexDigit? c = some d) : c.toNat < 103 := by
  have hle {last : Char} (hc : c ≤ last) : c.toNat ≤ last.toNat := hc
  unfold hexDigit? at h
  split at h
  case isTrue hrange => exact Nat.lt_of_le_of_lt (hle hrange.2) (by decide)
  case isFalse =>
    split at h
    case isTrue hrange => exact Nat.lt_of_le_of_lt (hle hrange.2) (by decide)
    case isFalse =>
      split at h
      case isTrue hrange => exact Nat.lt_of_le_of_lt (hle hrange.2) (by decide)
      case isFalse => cases h

/-- What is read as a digit is one. -/
theorem exists_digit_of_hexDigit? {c : Char} {d : Nat} (h : hexDigit? c = some d) :
    ∃ digit : HexDigit, digit.char = c := by
  have hall : ∀ code < 103, (hexDigit? (Char.ofNat code)).isSome = true →
      ∃ (value : Fin 16) (capital : Bool), HexDigit.char ⟨value, capital⟩ = Char.ofNat code := by
    decide +kernel
  obtain ⟨value, capital, hchar⟩ := hall c.toNat (toNat_of_hexDigit? h) (by
    rw [Char.ofNat_toNat, h]
    rfl)
  exact ⟨⟨value, capital⟩, by rw [hchar, Char.ofNat_toNat]⟩

/-- Whatever has a value is digits in a row. -/
theorem exists_digits_of_valueFrom? {acc v : Nat} {cs : List Char}
    (h : valueFrom? 16 hexDigit? acc cs = some v) :
    ∃ digits : List HexDigit, digits.map HexDigit.char = cs := by
  induction cs generalizing acc with
  | nil => exact ⟨[], rfl⟩
  | cons c cs ih =>
    rw [valueFrom?] at h
    cases hdigit : hexDigit? c with
    | none => simp [hdigit] at h
    | some d =>
      simp only [hdigit] at h
      obtain ⟨digit, rfl⟩ := exists_digit_of_hexDigit? hdigit
      obtain ⟨digits, rfl⟩ := ih h
      exact ⟨digit :: digits, rfl⟩

theorem hexValue?_eq_some_iff {cs : List Char} {v : Nat} :
    hexValue? cs = some v ↔
      ∃ digits : List HexDigit, digits ≠ [] ∧ digits.map HexDigit.char = cs ∧
        hexValue digits = v := by
  have hread (digits : List HexDigit) :
      valueFrom? 16 hexDigit? 0 (digits.map HexDigit.char) = some (hexValue digits) :=
    valueFrom?_zero_of_digits hexDigit?_char digits
  constructor
  · intro h
    unfold hexValue? at h
    split at h
    case isTrue => cases h
    case isFalse hne =>
      obtain ⟨digits, rfl⟩ := exists_digits_of_valueFrom? h
      rw [hread, Option.some.injEq] at h
      exact ⟨digits, by simpa using hne, rfl, h⟩
  · rintro ⟨digits, hne, rfl, rfl⟩
    rw [hexValue?, if_neg (by simpa using hne), hread]

/-- As long as eight digits are not exceeded, no step of reading them overflows. -/
theorem hexWordFrom?_eq {acc : UInt32} {read : Nat} {cs : List Char} (hacc : acc.toNat < 16 ^ read)
    (hlength : read + cs.length ≤ 8) :
    hexWordFrom? acc cs =
      match valueFrom? 16 hexDigit? acc.toNat cs with
      | some v => some (.ok (UInt32.ofNat v))
      | none => some (.error .invalidDigit) := by
  induction cs generalizing acc read with
  | nil => simp [hexWordFrom?, valueFrom?]
  | cons c cs ih =>
    rw [hexWordFrom?, valueFrom?]
    cases hdigit : hexDigit? c with
    | none => rfl
    | some d =>
      simp only
      have hd : d < 16 := by
        obtain ⟨digit, rfl⟩ := exists_digit_of_hexDigit? hdigit
        rw [hexDigit?_char, Option.some.injEq] at hdigit
        exact hdigit ▸ digit.value.isLt
      rw [List.length_cons] at hlength
      have hnext : 16 * acc.toNat + d < 16 ^ (read + 1) := by
        rw [Nat.pow_succ]
        omega
      have hbound : 16 * acc.toNat + d < 2 ^ 32 :=
        Nat.lt_of_lt_of_le hnext (Nat.pow_le_pow_right (by decide) (by omega : read + 1 ≤ 8))
      have hword : (16 * acc + UInt32.ofNat d).toNat = 16 * acc.toNat + d := by
        have hbase : (16 : UInt32).toNat = 16 := rfl
        rw [UInt32.toNat_add, UInt32.toNat_mul, UInt32.toNat_ofNat', hbase]
        omega
      rw [if_pos hbound, ih (by rw [hword]; exact hnext) (by omega), hword]

-- nine digits can be too many
example : hexWordFrom? 0 "100000000".toList = none := by decide

/-- The digits of a number are digits that make it up. -/
theorem exists_values_toDigits (n : Nat) :
    ∃ values : List (Fin 16), Nat.toDigits 16 n = values.map (fun value => Nat.digitChar value.val) ∧
      Nat.ofDigits 16 (values.map Fin.val).reverse = n := by
  induction n using Nat.strongRecOn with
  | ind n ih =>
    by_cases hsmall : n < 16
    case pos =>
      exact ⟨[⟨n, hsmall⟩], by simp [Nat.toDigits_of_lt_base hsmall], by simp⟩
    case neg =>
      obtain ⟨values, hdigits, hvalue⟩ := ih (n / 16) (by omega)
      let last : Fin 16 := ⟨n % 16, Nat.mod_lt n (by decide)⟩
      refine ⟨values ++ [last], ?_, ?_⟩
      · rw [Nat.toDigits_of_base_le (by decide) (Nat.le_of_not_lt hsmall), hdigits, List.map_append]
        rfl
      · rw [List.map_append, List.reverse_append, List.map_singleton, List.reverse_singleton,
          List.singleton_append, Nat.ofDigits_cons, hvalue]
        exact Nat.mod_add_div n 16

end Numeral

namespace Code

open Numeral

/-- The field of a cell, as a machine with 32 bits reads it. -/
def hexWordStepwise? (s : String) : Option (Except HexFault UInt32) :=
  if s.isEmpty then some (.error .empty)
  else if 8 < s.utf8ByteSize then some (.error .tooLong)
  else
    match unsigned s.toList with
    | [] => some (.error .invalidDigit)
    | digits => hexWordFrom? 0 digits

/-- One plus sign in front at most, and behind it digits that make up the number. -/
def SpellsHex (s : String) (v : Nat) : Prop :=
  ∃ (sign : List Char) (digits : List HexDigit), (sign = [] ∨ sign = ['+']) ∧ digits ≠ [] ∧
    s.toList = sign ++ digits.map HexDigit.char ∧ hexValue digits = v

theorem exists_sign (cs : List Char) :
    ∃ sign, (sign = [] ∨ sign = ['+']) ∧ cs = sign ++ unsigned cs := by
  unfold unsigned
  split
  case h_1 cs => exact ⟨['+'], .inr rfl, rfl⟩
  case h_2 cs _ => exact ⟨[], .inl rfl, rfl⟩

theorem plus_notMem_digits (digits : List HexDigit) : '+' ∉ digits.map HexDigit.char := by
  rw [List.mem_map]
  rintro ⟨digit, -, hchar⟩
  have hname := digit.char_spec.2
  rw [hchar] at hname
  exact absurd hname (by decide)

theorem utf8ByteSize_digits (digits : List HexDigit) :
    (String.ofList (digits.map HexDigit.char)).utf8ByteSize = digits.length := by
  rw [Profile.utf8ByteSize_of_isNameChar, List.length_map]
  intro c hc
  obtain ⟨digit, -, rfl⟩ := List.mem_map.mp hc
  exact digit.char_spec.2

theorem unsigned_append {sign : List Char} (h : sign = [] ∨ sign = ['+']) (digits : List HexDigit) :
    unsigned (sign ++ digits.map HexDigit.char) = digits.map HexDigit.char := by
  rcases h with rfl | rfl
  · exact unsigned_eq_self (plus_notMem_digits digits)
  · rfl

/-- Reading finds the number that is spelled, and no other. -/
theorem spellsHex_iff {s : String} {v : Nat} :
    SpellsHex s v ↔ hexValue? (unsigned s.toList) = some v := by
  rw [hexValue?_eq_some_iff]
  constructor
  · rintro ⟨sign, digits, hsign, hne, hs, hvalue⟩
    exact ⟨digits, hne, by rw [hs, unsigned_append hsign], hvalue⟩
  · rintro ⟨digits, hne, hdigits, hvalue⟩
    obtain ⟨sign, hsign, hs⟩ := exists_sign s.toList
    exact ⟨sign, digits, hsign, hne, by rw [hdigits, ← hs], hvalue⟩

theorem length_unsigned_le (s : String) : (unsigned s.toList).length ≤ s.utf8ByteSize := by
  obtain ⟨sign, -, hs⟩ := exists_sign s.toList
  have hlength := congrArg List.length hs
  have hsize := Octets.length_le_utf8ByteSize s.toList
  rw [String.ofList_toList] at hsize
  rw [List.length_append] at hlength
  omega

/-- Eight digits make up 32 bits at most. -/
theorem SpellsHex.lt {s : String} {v : Nat} (h : SpellsHex s v) (hsize : s.utf8ByteSize ≤ 8) :
    v < 2 ^ 32 := by
  obtain ⟨sign, digits, hsign, -, hs, rfl⟩ := h
  have hlength := length_unsigned_le s
  rw [hs, unsigned_append hsign, List.length_map] at hlength
  exact Nat.lt_of_lt_of_le (hexValue_lt digits)
    (Nat.pow_le_pow_right (by decide) (Nat.le_trans hlength hsize))

theorem SpellsHex.unique {s : String} {v w : Nat} (hv : SpellsHex s v) (hw : SpellsHex s w) :
    v = w := by
  rw [spellsHex_iff] at hv hw
  rw [hv, Option.some.injEq] at hw
  exact hw

/-- A field is judged by its size first, and then by its digits. -/
theorem hexWord_cases (s : String) :
    (s.utf8ByteSize = 0 ∧ hexWord s = .error .empty) ∨
    (8 < s.utf8ByteSize ∧ hexWord s = .error .tooLong) ∨
    (1 ≤ s.utf8ByteSize ∧ s.utf8ByteSize ≤ 8 ∧
      ∃ v : UInt32, SpellsHex s v.toNat ∧ hexWord s = .ok v) ∨
    (1 ≤ s.utf8ByteSize ∧ s.utf8ByteSize ≤ 8 ∧ (∀ v, ¬SpellsHex s v) ∧
      hexWord s = .error .invalidDigit) := by
  by_cases hempty : s.utf8ByteSize = 0
  · rw [String.utf8ByteSize_eq_zero_iff] at hempty
    subst hempty
    exact .inl ⟨rfl, rfl⟩
  have hsome : s.isEmpty = false := by
    rwa [Bool.eq_false_iff, Ne, String.isEmpty_iff, ← String.utf8ByteSize_eq_zero_iff]
  by_cases hlong : 8 < s.utf8ByteSize
  · refine .inr (.inl ⟨hlong, ?_⟩)
    rw [hexWord, hsome, if_pos hlong]
    rfl
  have hread : hexWord s =
      match hexValue? (unsigned s.toList) with
      | some v => .ok (UInt32.ofNat v)
      | none => .error .invalidDigit := by
    rw [hexWord, hsome, if_neg hlong]
    rfl
  cases hvalue : hexValue? (unsigned s.toList) with
  | some v =>
    have hspells : SpellsHex s v := spellsHex_iff.mpr hvalue
    have hword : (UInt32.ofNat v).toNat = v :=
      UInt32.toNat_ofNat_of_lt' (hspells.lt (Nat.le_of_not_lt hlong))
    rw [hvalue] at hread
    exact .inr (.inr (.inl ⟨by omega, by omega, UInt32.ofNat v, by rwa [hword], hread⟩))
  | none =>
    rw [hvalue] at hread
    refine .inr (.inr (.inr ⟨by omega, by omega, fun v hspells => ?_, hread⟩))
    rw [spellsHex_iff, hvalue] at hspells
    cases hspells

theorem hexWord_eq_ok_iff {s : String} {v : UInt32} :
    hexWord s = .ok v ↔ 1 ≤ s.utf8ByteSize ∧ s.utf8ByteSize ≤ 8 ∧ SpellsHex s v.toNat := by
  rcases hexWord_cases s with ⟨hsize, h⟩ | ⟨hsize, h⟩ | ⟨hsome, hsize, w, hspells, h⟩ |
    ⟨-, -, hnone, h⟩
  · exact iff_of_false (by simp [h]) fun ⟨hsome, _⟩ => by omega
  · exact iff_of_false (by simp [h]) fun ⟨_, hshort, _⟩ => by omega
  · rw [h, Except.ok.injEq]
    constructor
    · rintro rfl
      exact ⟨hsome, hsize, hspells⟩
    · exact fun ⟨_, _, hother⟩ => UInt32.toNat_inj.mp (hspells.unique hother)
  · exact iff_of_false (by simp [h]) fun ⟨_, _, hspells⟩ => hnone _ hspells

theorem hexWord_eq_empty_iff {s : String} : hexWord s = .error .empty ↔ s = "" := by
  rw [← String.utf8ByteSize_eq_zero_iff]
  rcases hexWord_cases s with ⟨hsize, h⟩ | ⟨hsize, h⟩ | ⟨hsome, -, w, -, h⟩ | ⟨hsome, -, -, h⟩
  · exact iff_of_true h hsize
  · exact iff_of_false (by simp [h]) (by omega)
  · exact iff_of_false (by simp [h]) (by omega)
  · exact iff_of_false (by simp [h]) (by omega)

theorem hexWord_eq_tooLong_iff {s : String} : hexWord s = .error .tooLong ↔ 8 < s.utf8ByteSize := by
  rcases hexWord_cases s with ⟨hsize, h⟩ | ⟨hsize, h⟩ | ⟨-, hsize, w, -, h⟩ | ⟨-, hsize, -, h⟩
  · exact iff_of_false (by simp [h]) (by omega)
  · exact iff_of_true h hsize
  · exact iff_of_false (by simp [h]) (by omega)
  · exact iff_of_false (by simp [h]) (by omega)

theorem hexWord_eq_invalidDigit_iff {s : String} :
    hexWord s = .error .invalidDigit ↔
      1 ≤ s.utf8ByteSize ∧ s.utf8ByteSize ≤ 8 ∧ ∀ v, ¬SpellsHex s v := by
  rcases hexWord_cases s with ⟨hsize, h⟩ | ⟨hsize, h⟩ | ⟨-, -, w, hspells, h⟩ |
    ⟨hsome, hsize, hnone, h⟩
  · exact iff_of_false (by simp [h]) fun ⟨hsome, _⟩ => by omega
  · exact iff_of_false (by simp [h]) fun ⟨_, hshort, _⟩ => by omega
  · exact iff_of_false (by simp [h]) fun ⟨_, _, hnone⟩ => hnone _ hspells
  · exact iff_of_true h ⟨hsome, hsize, hnone⟩

/-- No step of reading a field overflows. -/
theorem hexWordStepwise?_eq (s : String) : hexWordStepwise? s = some (hexWord s) := by
  unfold hexWordStepwise? hexWord
  split
  case isTrue => rfl
  case isFalse =>
    split
    case isTrue => rfl
    case isFalse hsize =>
      have hlength := length_unsigned_le s
      cases hdigits : unsigned s.toList with
      | nil => rfl
      | cons c cs =>
        have hstart : (0 : UInt32).toNat < 16 ^ 0 := by decide
        have hfits : 0 + (c :: cs).length ≤ 8 := by
          rw [← hdigits]
          omega
        have hread := hexWordFrom?_eq hstart hfits
        simp only [hread, hexValue?, List.isEmpty_cons, Bool.false_eq_true, if_false]
        cases hvalue : valueFrom? 16 hexDigit? 0 (c :: cs) with
        | none => simp [hvalue]
        | some v => simp [hvalue]

/-- A word in digits of one case, with zeros in front if it is narrower than `width`. -/
def hexText (capital : Bool) (width : Nat) (v : UInt32) : String :=
  let digits := (Nat.toDigits 16 v.toNat).leftpad width '0'
  String.ofList (if capital then digits.map Char.toUpper else digits)

/-- The digits of a word, in front of which zeros do not count. -/
theorem exists_digits_hexText (capital : Bool) (width : Nat) (v : UInt32) :
    ∃ digits : List HexDigit, hexText capital width v = String.ofList (digits.map HexDigit.char) ∧
      digits.length = max width (Nat.toDigits 16 v.toNat).length ∧ hexValue digits = v.toNat := by
  obtain ⟨values, hdigits, hvalue⟩ := exists_values_toDigits v.toNat
  let padded : List (Fin 16) := List.replicate (width - values.length) 0 ++ values
  have hpadded : (Nat.toDigits 16 v.toNat).leftpad width '0' =
      padded.map fun value => Nat.digitChar value.val := by
    rw [hdigits, List.leftpad, List.length_map, List.map_append, List.map_replicate]
    rfl
  refine ⟨padded.map fun value => ⟨value, capital⟩, ?_, ?_, ?_⟩
  · rw [hexText, hpadded]
    cases capital <;> simp [HexDigit.char, Function.comp_def]
  · rw [hdigits, List.length_map, List.length_map, List.length_append, List.length_replicate]
    omega
  · have hzeros : (padded.map Fin.val).reverse =
        (values.map Fin.val).reverse ++ List.replicate (width - values.length) 0 := by
      rw [List.map_append, List.reverse_append, List.map_replicate, List.reverse_replicate]
      rfl
    calc hexValue (padded.map fun value => ⟨value, capital⟩)
      _ = Nat.ofDigits 16 (padded.map Fin.val).reverse := by
        rw [hexValue, List.map_map]
        rfl
      _ = Nat.ofDigits 16 (values.map Fin.val).reverse := by
        rw [hzeros, Nat.ofDigits_append_replicate_zero]
      _ = v.toNat := hvalue

/-- A field has a value if and only if it has one to eight bytes and consists of digits, a plus sign
in front allowed; the value is the number they make up. An empty field and one of more bytes are
reported as such, any other one for a character that is no digit. No step of reading overflows. And
every word of 32 bits is read from its digits, small or capital, with any number of zeros in front
of them that fits. -/
theorem hexWord_by_value :
    (∀ s : String,
      (∀ v, hexWord s = .ok v ↔ 1 ≤ s.utf8ByteSize ∧ s.utf8ByteSize ≤ 8 ∧ SpellsHex s v.toNat) ∧
      (hexWord s = .error .empty ↔ s = "") ∧
      (hexWord s = .error .tooLong ↔ 8 < s.utf8ByteSize) ∧
      (hexWord s = .error .invalidDigit ↔
        1 ≤ s.utf8ByteSize ∧ s.utf8ByteSize ≤ 8 ∧ ∀ v, ¬SpellsHex s v) ∧
      hexWordStepwise? s = some (hexWord s)) ∧
    ∀ (capital : Bool) (width : Nat) (v : UInt32), width ≤ 8 →
      hexWord (hexText capital width v) = .ok v := by
  refine ⟨fun s => ⟨fun v => hexWord_eq_ok_iff, hexWord_eq_empty_iff, hexWord_eq_tooLong_iff,
    hexWord_eq_invalidDigit_iff, hexWordStepwise?_eq s⟩, ?words⟩
  case words =>
    intro capital width v hwidth
    obtain ⟨digits, htext, hlength, hvalue⟩ := exists_digits_hexText capital width v
    have hpos := Nat.length_toDigits_pos (b := 16) (n := v.toNat)
    have hshort : (Nat.toDigits 16 v.toNat).length ≤ 8 :=
      (Nat.length_toDigits_le_iff (by decide) (by decide)).mpr v.toNat_lt
    have hsize := utf8ByteSize_digits digits
    have hspells : SpellsHex (hexText capital width v) v.toNat :=
      ⟨[], digits, .inl rfl, List.ne_nil_of_length_pos (by omega),
        by rw [htext, String.toList_ofList, List.nil_append], hvalue⟩
    refine hexWord_eq_ok_iff.mpr ⟨?_, ?_, hspells⟩
    · rw [htext]
      omega
    · rw [htext]
      omega

end Code

end CellModem
