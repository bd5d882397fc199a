import Mathlib
import CellModem.Code.Hex
import CellModem.Code.Network
import CellModem.Code.SemiOctets
import CellModem.Proofs.Response
import CellModem.Proofs.Spelling

/-!
Values in the form in which a modem renders them. Cell and area codes come in hexadecimal digits of
either case, an operator is made up of decimal digits, and the number of a SIM card has its digits
exchanged in pairs; all of them stand between quotation marks. Whoever decodes what was rendered
gets the value back.
-/

namespace CellModem

namespace Octets

theorem lineFeed_notMem_ofText {cs : List Char} (h : '\n' ∉ cs) :
    10 ∉ ofText (String.ofList cs) := by
  rw [ofText_ofList, List.mem_flatMap]
  rintro ⟨c, hc, hfeed⟩
  -- the bytes of a character of several bytes are all above the ASCII range
  obtain ⟨-, hcode⟩ | ⟨-, hlarge⟩ := toNat_of_mem_utf8EncodeChar hfeed
  · rw [Char.toNat_inj.mp (show c.toNat = '\n'.toNat from hcode.symm)] at hc
    exact h hc
  · exact absurd hlarge (by decide)

end Octets

namespace Numeral

/-- The value of a numeral, whatever its digits look like. -/
theorem valueFrom?_of_digits {δ : Type} {base : Nat} {digit? : Char → Option Nat}
    {char : δ → Char} {value : δ → Nat} (h : ∀ d, digit? (char d) = some (value d)) (acc : Nat)
    (digits : List δ) :
    valueFrom? base digit? acc (digits.map char) =
      some (Nat.ofDigits base ((digits.map value).reverse ++ [acc])) := by
  induction digits generalizing acc with
  | nil => simp [valueFrom?]
  | cons d digits ih =>
    rw [List.map_cons, valueFrom?, h d]
    have hlast : Nat.ofDigits base [base * acc + value d] = Nat.ofDigits base [value d, acc] := by
      simp only [Nat.ofDigits_cons, Nat.ofDigits_nil, Nat.mul_zero, Nat.add_zero]
      exact Nat.add_comm _ _
    simp only
    rw [ih, List.map_cons, List.reverse_cons, List.append_assoc, Nat.ofDigits_append, hlast,
      ← Nat.ofDigits_append]
    rfl

theorem valueFrom?_zero_of_digits {δ : Type} {base : Nat} {digit? : Char → Option Nat}
    {char : δ → Char} {value : δ → Nat} (h : ∀ d, digit? (char d) = some (value d))
    (digits : List δ) :
    valueFrom? base digit? 0 (digits.map char) =
      some (Nat.ofDigits base (digits.map value).reverse) := by
  rw [valueFrom?_of_digits h, Nat.ofDigits_append, Nat.ofDigits_singleton, Nat.mul_zero,
    Nat.add_zero]

end Numeral

theorem Code.mem_swapPairs {α : Type} {a : α} {xs : List α} : a ∈ swapPairs xs ↔ a ∈ xs := by
  fun_induction swapPairs xs with
  | case1 b c rest ih =>
    simp only [List.mem_cons, ih]
    exact or_left_comm
  | case2 rest short => rfl

namespace Profile

open Statement

/-- The characters of names and numbers: ASCII letters and digits, and three marks. -/
def isNameChar (c : Char) : Bool :=
  c.isAlphanum || c == '_' || c == '.' || c == '-'

theorem toNat_of_isNameChar {c : Char} (h : isNameChar c = true) :
    45 ≤ c.toNat ∧ c.toNat ≤ 122 := by
  simp only [isNameChar, Bool.or_eq_true, beq_iff_eq] at h
  rcases h with ((h | rfl) | rfl) | rfl
  · simp only [Char.isAlphanum, Char.isAlpha, Char.isUpper, Char.isLower, Char.isDigit,
      Bool.or_eq_true, Bool.and_eq_true, decide_eq_true_eq, ge_iff_le, UInt32.le_iff_toNat_le] at h
    have hA : 'A'.val.toNat = 65 := rfl
    have hZ : 'Z'.val.toNat = 90 := rfl
    have ha : 'a'.val.toNat = 97 := rfl
    have hz : 'z'.val.toNat = 122 := rfl
    have h0 : '0'.val.toNat = 48 := rfl
    have h9 : '9'.val.toNat = 57 := rfl
    have hc : c.toNat = c.val.toNat := rfl
    omega
  all_goals decide

theorem ne_of_isNameChar {c : Char} (h : isNameChar c = true) {other : Char}
    (hother : isNameChar other = false) : c ≠ other := by
  rintro rfl
  exact Bool.false_ne_true (hother.symm.trans h)

theorem notMem_of_isNameChar {cs : List Char} (h : ∀ c ∈ cs, isNameChar c = true) {other : Char}
    (hother : isNameChar other = false) : other ∉ cs :=
  fun hmem => ne_of_isNameChar (h other hmem) hother rfl

theorem not_isBlank_of_isNameChar {c : Char} (h : isNameChar c = true) :
    Text.isBlank c = false := by
  have hrange := toNat_of_isNameChar h
  simp only [Text.isBlank, Bool.or_eq_false_iff, Bool.and_eq_false_iff, decide_eq_false_iff_not,
    beq_eq_false_iff_ne]
  omega

/-- Each of them is one byte. -/
theorem ofText_of_isNameChar {cs : List Char} (h : ∀ c ∈ cs, isNameChar c = true) :
    Octets.ofText (String.ofList cs) = cs.map fun c => c.val.toUInt8 := by
  rw [Octets.ofText_ofList]
  induction cs with
  | nil => rfl
  | cons c cs ih =>
    have hrange := toNat_of_isNameChar (h c List.mem_cons_self)
    have hc : c.utf8Size = 1 := Octets.utf8Size_of_ascii (by omega)
    rw [List.flatMap_cons, String.utf8EncodeChar_eq_singleton hc, List.singleton_append,
      List.map_cons, ih fun d hd => h d (List.mem_cons_of_mem c hd)]

theorem utf8ByteSize_of_isNameChar {cs : List Char} (h : ∀ c ∈ cs, isNameChar c = true) :
    (String.ofList cs).utf8ByteSize = cs.length :=
  Octets.utf8ByteSize_of_ascii fun c hc =>
    Nat.lt_of_le_of_lt (toNat_of_isNameChar (h c hc)).2 (by decide)

theorem toNat_of_mem_ofText {cs : List Char} (h : ∀ c ∈ cs, isNameChar c = true) {b : UInt8}
    (hb : b ∈ Octets.ofText (String.ofList cs)) : 45 ≤ b.toNat ∧ b.toNat ≤ 122 := by
  rw [ofText_of_isNameChar h] at hb
  obtain ⟨c, hc, rfl⟩ := List.mem_map.mp hb
  have hrange : 45 ≤ c.val.toNat ∧ c.val.toNat ≤ 122 := toNat_of_isNameChar (h c hc)
  rw [UInt32.toNat_toUInt8]
  omega

/-- What may stand between quotation marks, and is read as it is. -/
structure Quotation where
  text : List Char
  closed : '"' ∉ text
  whole : '\n' ∉ text
  trimmed : ∀ c ∈ text.getLast?, Text.isBlank c = false
  fits : Fits text

namespace Quotation

def entry (quotation : Quotation) : Entry :=
  .quoted quotation.text quotation.closed
    (by rw [Text.trimEnd_eq_self quotation.trimmed]; exact quotation.fits)

theorem parameter_entry (quotation : Quotation) :
    quotation.entry.parameter = .text (String.ofList quotation.text) := by
  rw [entry, Entry.parameter, Text.trimEnd_eq_self quotation.trimmed]

/-- A name or a number may. -/
def ofName (text : List Char) (h : ∀ c ∈ text, isNameChar c = true)
    (hlength : text.length ≤ Limits.text) : Quotation where
  text
  closed := notMem_of_isNameChar h (by decide)
  whole := notMem_of_isNameChar h (by decide)
  trimmed c hc := not_isBlank_of_isNameChar (h c (List.mem_of_getLast? hc))
  fits := by rw [Fits, utf8ByteSize_of_isNameChar h]; exact hlength

end Quotation

/-- A list of bands as it stands between parentheses. -/
structure BandList where
  inner : List Char
  closed : ')' ∉ inner
  whole : '\n' ∉ inner
  fits : Fits ('(' :: (inner ++ [')']))

def BandList.entry (bands : BandList) : Entry :=
  .listed bands.inner bands.closed bands.fits

/-- A hexadecimal digit, with small letters or capital ones. -/
structure HexDigit where
  value : Fin 16
  capital : Bool := false

def HexDigit.char (digit : HexDigit) : Char :=
  if digit.capital then (Nat.digitChar digit.value).toUpper else Nat.digitChar digit.value

theorem HexDigit.char_spec (digit : HexDigit) :
    Numeral.hexDigit? digit.char = some digit.value.val ∧ isNameChar digit.char = true := by
  have hall : ∀ (value : Fin 16) (capital : Bool),
      Numeral.hexDigit? (HexDigit.char ⟨value, capital⟩) = some value.val ∧
        isNameChar (HexDigit.char ⟨value, capital⟩) = true := by decide
  exact hall digit.value digit.capital

/-- A number of 32 bits in one to eight hexadecimal digits. -/
structure HexNumeral where
  value : UInt32
  digits : List HexDigit
  nonempty : digits ≠ []
  short : digits.length ≤ 8
  value_eq : Nat.ofDigits 16 (digits.map fun digit => digit.value.val).reverse = value.toNat

namespace HexNumeral

def text (numeral : HexNumeral) : List Char :=
  numeral.digits.map HexDigit.char

theorem isNameChar_of_mem_text {numeral : HexNumeral} :
    ∀ c ∈ numeral.text, isNameChar c = true := by
  intro c hc
  obtain ⟨digit, -, rfl⟩ := List.mem_map.mp hc
  exact digit.char_spec.2

def quotation (numeral : HexNumeral) : Quotation :=
  .ofName numeral.text isNameChar_of_mem_text (by
    rw [text, List.length_map]
    exact Nat.le_trans numeral.short (by decide))

/-- The digits tell the number. -/
theorem hexWord_text (numeral : HexNumeral) :
    Code.hexWord (String.ofList numeral.text) = .ok numeral.value := by
  have hvalue : Numeral.hexValue? numeral.text = some numeral.value.toNat := by
    rw [Numeral.hexValue?, if_neg (by simpa [text] using numeral.nonempty), text,
      Numeral.valueFrom?_zero_of_digits fun digit => (HexDigit.char_spec digit).1,
      numeral.value_eq]
  have hunsigned : Code.unsigned numeral.text = numeral.text :=
    Code.unsigned_eq_self (notMem_of_isNameChar isNameChar_of_mem_text (by decide))
  have hsize : (String.ofList numeral.text).utf8ByteSize = numeral.digits.length := by
    rw [utf8ByteSize_of_isNameChar isNameChar_of_mem_text, text, List.length_map]
  have hempty : (String.ofList numeral.text).isEmpty = false := by
    simp [text, numeral.nonempty]
  rw [Code.hexWord, hempty, hsize, if_neg (Nat.not_lt.mpr numeral.short), String.toList_ofList,
    hunsigned, hvalue]
  simp

end HexNumeral

/-- An operator in at least four decimal digits: three for its country, the others for its network.
Both are numbers of 16 bits. -/
structure OperatorName where
  country : UInt16
  network : UInt16
  countryDigits : List (Fin 10)
  networkDigits : List (Fin 10)
  length_country : countryDigits.length = 3
  nonempty : networkDigits ≠ []
  short : (countryDigits ++ networkDigits).length ≤ Limits.text
  country_eq : Nat.ofDigits 10 (countryDigits.map Fin.val).reverse = country.toNat
  network_eq : Nat.ofDigits 10 (networkDigits.map Fin.val).reverse = network.toNat

namespace OperatorName

def spell (digits : List (Fin 10)) : List Char :=
  digits.map fun digit => Numeral.digitChar digit.val

def text (operator : OperatorName) : List Char :=
  spell operator.countryDigits ++ spell operator.networkDigits

theorem digitChar_spec (digit : Fin 10) :
    Numeral.decimalDigit? (Numeral.digitChar digit.val) = some digit.val ∧
      isNameChar (Numeral.digitChar digit.val) = true := by
  have hall : ∀ digit : Fin 10, isNameChar (Numeral.digitChar digit.val) = true := by decide
  exact ⟨Numeral.decimalDigit?_digitChar digit.isLt, hall digit⟩

theorem exists_of_mem_text {operator : OperatorName} {c : Char} (h : c ∈ operator.text) :
    ∃ digit : Fin 10, c = Numeral.digitChar digit.val := by
  rw [text, spell, spell, ← List.map_append] at h
  obtain ⟨digit, -, rfl⟩ := List.mem_map.mp h
  exact ⟨digit, rfl⟩

theorem isNameChar_of_mem_text {operator : OperatorName} :
    ∀ c ∈ operator.text, isNameChar c = true := by
  intro c hc
  obtain ⟨digit, rfl⟩ := exists_of_mem_text hc
  exact (digitChar_spec digit).2

theorem length_text (operator : OperatorName) :
    operator.text.length = (operator.countryDigits ++ operator.networkDigits).length := by
  simp [text, spell]

def quotation (operator : OperatorName) : Quotation :=
  .ofName operator.text isNameChar_of_mem_text (by rw [length_text]; exact operator.short)

theorem shortNumeral?_spell {digits : List (Fin 10)} (hdigits : digits ≠ []) {value : UInt16}
    (hvalue : Nat.ofDigits 10 (digits.map Fin.val).reverse = value.toNat) :
    Code.shortNumeral? (spell digits) = some value := by
  have hdecimal : Numeral.decimalValue? (spell digits) = some value.toNat := by
    rw [Numeral.decimalValue?, if_neg (by simpa [spell] using hdigits), spell,
      Numeral.valueFrom?_zero_of_digits fun digit => (digitChar_spec digit).1, hvalue]
  have hsmall : value.toNat < 65536 := value.toNat_lt
  simp only [Code.shortNumeral?, hdecimal, hsmall, if_true, UInt16.ofNat_toNat]

/-- The first three digits tell the country, the others the network. -/
theorem ofOperator_text (operator : OperatorName) :
    Code.NetworkCode.ofOperator (String.ofList operator.text) =
      .ok ⟨operator.country, operator.network⟩ := by
  have hlength : (spell operator.countryDigits).length = 3 := by
    rw [spell, List.length_map, operator.length_country]
  have htake : operator.text.take 3 = spell operator.countryDigits := List.take_left' hlength
  have hdrop : operator.text.drop 3 = spell operator.networkDigits := List.drop_left' hlength
  have hcountry := shortNumeral?_spell (List.ne_nil_of_length_eq_add_one operator.length_country)
    operator.country_eq
  have hnetwork := shortNumeral?_spell operator.nonempty operator.network_eq
  have hsize : ¬ (String.ofList operator.text).utf8ByteSize ≤ 3 := by
    have hmore := List.length_pos_iff.mpr operator.nonempty
    rw [utf8ByteSize_of_isNameChar isNameChar_of_mem_text, length_text, List.length_append,
      operator.length_country]
    omega
  have hdigits : operator.text.all Numeral.isDecimalDigit = true := by
    rw [List.all_eq_true]
    intro c hc
    obtain ⟨digit, rfl⟩ := exists_of_mem_text hc
    exact Numeral.isDecimalDigit_digitChar digit.isLt
  simp only [Code.NetworkCode.ofOperator, String.toList_ofList, hsize, hdigits, htake, hdrop,
    hcountry, hnetwork]
  rfl

end OperatorName

/-- The number of a SIM card. -/
structure CardNumber where
  text : List Char
  alphanumeric : ∀ c ∈ text, c.isAlphanum = true
  short : text.length ≤ Limits.text

namespace CardNumber

/-- As it is sent. -/
def swapped (number : CardNumber) : List Char :=
  Code.swapPairs number.text

theorem isNameChar_of_mem_swapped {number : CardNumber} :
    ∀ c ∈ number.swapped, isNameChar c = true := by
  intro c hc
  have hplain := number.alphanumeric c (Code.mem_swapPairs.mp hc)
  simp [isNameChar, hplain]

def quotation (number : CardNumber) : Quotation :=
  .ofName number.swapped isNameChar_of_mem_swapped (by
    rw [swapped, Code.length_swapPairs]
    exact number.short)

/-- Exchanging the digits again restores the number. -/
theorem restoreSemiOctets_swapped (number : CardNumber) :
    Code.restoreSemiOctets Limits.text (String.ofList number.swapped) =
      .ok (String.ofList number.text) := by
  have hascii : (number.swapped.any fun c => 128 ≤ c.toNat) = false := by
    rw [List.any_eq_false]
    intro c hc
    have hrange := toNat_of_isNameChar (isNameChar_of_mem_swapped c hc)
    simp only [decide_eq_true_eq]
    omega
  have hlength : ¬ Limits.text < (String.ofList number.swapped).length := by
    rw [String.length_ofList, swapped, Code.length_swapPairs]
    exact Nat.not_lt.mpr number.short
  rw [Code.restoreSemiOctets, String.toList_ofList, hascii, if_neg hlength, swapped,
    Code.swapPairs_swapPairs]
  rfl

end CardNumber

/-- The name of a firmware version. It is no number, and does not begin like a final result. -/
structure FirmwareName where
  text : List Char
  name : ∀ c ∈ text, isNameChar c = true
  short : text.length ≤ Limits.text
  not_numeral : ∃ c ∈ text, Numeral.isDecimalDigit c = false
  plain : ¬ Line.Misleading (Octets.ofText (String.ofList text))

namespace FirmwareName

theorem isWord_text (firmware : FirmwareName) : IsWord firmware.text where
  inside c hc := by
    have hne (other : Char) (hother : isNameChar other = false) : c ≠ other :=
      ne_of_isNameChar (firmware.name c hc) hother
    simp [inWord, endsStatement, hne ',' (by decide), hne '\r' (by decide), hne '\n' (by decide),
      hne '\x00' (by decide), hne ';' (by decide)]
  start := by
    obtain ⟨d, hd, -⟩ := firmware.not_numeral
    cases htext : firmware.text with
    | nil => simp [htext] at hd
    | cons c rest =>
      have hname := firmware.name c (by simp [htext])
      have hne (other : Char) (hother : isNameChar other = false) : c ≠ other :=
        ne_of_isNameChar hname hother
      refine ⟨c, rest, rfl, ?_, hne '"' (by decide), hne '(' (by decide)⟩
      simp [isPadding, hne ' ' (by decide), hne '\t' (by decide)]
  not_numeral := firmware.not_numeral
  trimmed c hc := not_isBlank_of_isNameChar (firmware.name c (List.mem_of_getLast? hc))
  fits := by
    rw [Fits, utf8ByteSize_of_isNameChar firmware.name]
    exact firmware.short

def entry (firmware : FirmwareName) : Entry :=
  .word firmware.text firmware.isWord_text

end FirmwareName

end Profile

end CellModem
