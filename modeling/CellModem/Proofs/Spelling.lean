import Mathlib
import CellModem.Proofs.Statement

/-!
Writing a statement, and reading it again. Entries are spelled out, with spaces and tabs around
them and commas between them, and something that ends a statement may follow. Whoever reads as many
fields as there are slots finds the entries, each at its place, and nothing else.
-/

namespace CellModem

namespace Numeral

/-- Decimal numerals are written like everywhere else. -/
theorem decimal_eq_toDigits (n : Nat) : decimal n = Nat.toDigits 10 n := by
  have hdigit : ∀ d < 10, digitChar d = Nat.digitChar d := by decide
  rw [decimal, Nat.toDigits_eq_if (by decide)]
  split
  case isTrue hsmall => rw [hdigit n hsmall]
  case isFalse => rw [decimal_eq_toDigits (n / 10), hdigit _ (Nat.mod_lt n (by decide))]
termination_by n
decreasing_by omega

theorem isDecimalDigit_digitChar {d : Nat} (h : d < 10) : isDecimalDigit (digitChar d) = true := by
  rw [isDecimalDigit, decimalDigit?_digitChar h]
  rfl

theorem isDecimalDigit_of_mem_decimal {n : Nat} {c : Char} (h : c ∈ decimal n) :
    isDecimalDigit c = true := by
  rw [decimal] at h
  split at h
  case isTrue hsmall =>
    rw [List.mem_singleton.mp h]
    exact isDecimalDigit_digitChar hsmall
  case isFalse =>
    rcases List.mem_append.mp h with hfront | hlast
    · exact isDecimalDigit_of_mem_decimal hfront
    · rw [List.mem_singleton.mp hlast]
      exact isDecimalDigit_digitChar (Nat.mod_lt _ (by decide))
termination_by n
decreasing_by omega

theorem toNat_of_isDecimalDigit {c : Char} (h : isDecimalDigit c = true) :
    48 ≤ c.toNat ∧ c.toNat ≤ 57 := by
  simp only [isDecimalDigit, decimalDigit?] at h
  split at h
  case isTrue hrange => exact hrange
  case isFalse => cases h

/-- Digits are the only characters of a numeral. -/
theorem decimalValue?_eq_none {cs : List Char} (h : ∃ c ∈ cs, isDecimalDigit c = false) :
    decimalValue? cs = none := by
  obtain ⟨c, hmem, hc⟩ := h
  have hnone : ∀ acc, valueFrom? 10 decimalDigit? acc cs = none := by
    induction cs with
    | nil => cases hmem
    | cons first rest ih =>
      intro acc
      rw [valueFrom?]
      cases hfirst : decimalDigit? first with
      | none => rfl
      | some d =>
        rcases List.mem_cons.mp hmem with rfl | hrest
        · simp [isDecimalDigit, hfirst] at hc
        · exact ih hrest _
  simp [decimalValue?, List.ne_nil_of_mem hmem, hnone]

end Numeral

namespace Text

/-- White space at the end is not there any more after trimming. -/
theorem trimEnd_append_of_blank {cs blanks : List Char} (h : ∀ c ∈ blanks, isBlank c = true) :
    trimEnd (cs ++ blanks) = trimEnd cs := by
  rw [trimEnd, List.reverse_append, List.dropWhile_append_of_pos, trimEnd]
  intro c hc
  exact h c (List.mem_reverse.mp hc)

theorem trimEnd_eq_self {cs : List Char} (h : ∀ c ∈ cs.getLast?, isBlank c = false) :
    trimEnd cs = cs := by
  rcases List.eq_nil_or_concat cs with rfl | ⟨front, last, rfl⟩
  · rfl
  · have hlast : isBlank last = false := h last (by simp)
    simp [trimEnd, hlast]

end Text

namespace Statement

theorem isBlank_of_isPadding {c : Char} (h : isPadding c = true) : Text.isBlank c = true := by
  simp only [isPadding, Bool.or_eq_true, beq_iff_eq] at h
  rcases h with rfl | rfl <;> decide

/-- A slot has room for the text. -/
def Fits (text : List Char) : Prop :=
  (String.ofList text).utf8ByteSize ≤ Limits.text

instance (text : List Char) : Decidable (Fits text) :=
  inferInstanceAs (Decidable (_ ≤ _))

/-- A text that may stand bare and is read as it is. -/
structure IsWord (word : List Char) : Prop where
  inside : ∀ c ∈ word, inWord c = true
  start : ∃ c rest, word = c :: rest ∧ isPadding c = false ∧ c ≠ '"' ∧ c ≠ '('
  not_numeral : ∃ c ∈ word, Numeral.isDecimalDigit c = false
  trimmed : ∀ c ∈ word.getLast?, Text.isBlank c = false
  fits : Fits word

/-- A parameter in one of its spellings. -/
inductive Entry where
  | empty
  | short (value : UInt16)
  | int (value : UInt32) (large : 65536 ≤ value.toNat)
  /-- In quotation marks; white space at its end does not get into the slot. -/
  | quoted (inner : List Char) (closed : '"' ∉ inner) (fits : Fits (Text.trimEnd inner))
  /-- In parentheses, which belong to the parameter. -/
  | listed (inner : List Char) (closed : ')' ∉ inner) (fits : Fits ('(' :: (inner ++ [')'])))
  | word (text : List Char) (valid : IsWord text)

namespace Entry

def spell : Entry → List Char
  | .empty => []
  | .short value => Numeral.decimal value.toNat
  | .int value _ => Numeral.decimal value.toNat
  | .quoted inner _ _ => '"' :: (inner ++ ['"'])
  | .listed inner _ _ => '(' :: (inner ++ [')'])
  | .word text _ => text

def parameter : Entry → Parameter
  | .empty => .empty
  | .short value => .short value
  | .int value _ => .int value
  | .quoted inner _ _ => .text (String.ofList (Text.trimEnd inner))
  | .listed inner _ _ => .text (String.ofList ('(' :: (inner ++ [')'])))
  | .word text _ => .text (String.ofList text)

/-- The field that is found, with such padding behind the entry. Only a bare word includes it. -/
def field (after : List Char) : Entry → Field
  | .empty => .absent
  | .short value => .bare (Numeral.decimal value.toNat ++ after)
  | .int value _ => .bare (Numeral.decimal value.toNat ++ after)
  | .quoted inner _ _ => .quoted inner
  | .listed inner _ _ => .listed inner
  | .word text _ => .bare (text ++ after)

end Entry

/-- An entry with spaces and tabs around it. -/
structure Padded where
  before : List Char := []
  entry : Entry
  after : List Char := []
  before_padding : ∀ c ∈ before, isPadding c = true := by exact List.all_eq_true.mp rfl
  after_padding : ∀ c ∈ after, isPadding c = true := by exact List.all_eq_true.mp rfl

def Padded.spell (item : Padded) : List Char :=
  item.before ++ item.entry.spell ++ item.after

def Padded.field (item : Padded) : Field :=
  item.entry.field item.after

def spell (items : List Padded) : List Char :=
  [','].intercalate (items.map Padded.spell)

/-- A digit may stand anywhere in a bare word, and is not blank. -/
theorem inWord_of_isDecimalDigit {c : Char} (h : Numeral.isDecimalDigit c = true) :
    inWord c = true ∧ isPadding c = false ∧ c ≠ '"' ∧ c ≠ '(' ∧ Text.isBlank c = false := by
  have hrange := Numeral.toNat_of_isDecimalDigit h
  have hne (other : Char) (hother : other.toNat < 48 ∨ 57 < other.toNat) : c ≠ other := by
    rintro rfl
    omega
  refine ⟨?_, ?_, hne '"' (by decide), hne '(' (by decide), ?_⟩
  · simp [inWord, endsStatement, hne ',' (by decide), hne '\r' (by decide), hne '\n' (by decide),
      hne '\x00' (by decide), hne ';' (by decide)]
  · simp [isPadding, hne ' ' (by decide), hne '\t' (by decide)]
  · simp only [Text.isBlank, Bool.or_eq_false_iff, Bool.and_eq_false_iff, decide_eq_false_iff_not,
      beq_eq_false_iff_ne]
    omega

/-- Reading a bare word stops there. -/
def Stops (text : List Char) : Prop :=
  ∀ c ∈ text.head?, inWord c = false

theorem stops_of_atEnd {text : List Char} (h : atEnd text = true) : Stops text := by
  cases text with
  | nil => simp [Stops]
  | cons c cs =>
    have hc : endsStatement c = true := h
    simp [Stops, inWord, hc]

theorem stops_comma (text : List Char) : Stops (',' :: text) := by
  simp [Stops, inWord]

theorem inWord_of_isPadding {c : Char} (h : isPadding c = true) : inWord c = true := by
  simp only [isPadding, Bool.or_eq_true, beq_iff_eq] at h
  rcases h with rfl | rfl <;> decide

theorem Stops.skipPadding_eq {text : List Char} (h : Stops text) : skipPadding text = text := by
  cases text with
  | nil => rfl
  | cons c cs =>
    have hc : isPadding c = false := by
      rw [Bool.eq_false_iff]
      intro hpadding
      exact Bool.false_ne_true ((h c rfl).symm.trans (inWord_of_isPadding hpadding))
    simp [skipPadding, hc]

theorem skipPadding_append {padding : List Char} (h : ∀ c ∈ padding, isPadding c = true)
    (text : List Char) : skipPadding (padding ++ text) = skipPadding text :=
  List.dropWhile_append_of_pos h

theorem skipPadding_cons {c : Char} (h : isPadding c = false) (text : List Char) :
    skipPadding (c :: text) = c :: text := by
  simp [skipPadding, h]

theorem splitAt?_append {mark : Char} {inner : List Char} (h : mark ∉ inner) (rest : List Char) :
    splitAt? mark (inner ++ mark :: rest) = some (inner, rest) := by
  induction inner with
  | nil => simp [splitAt?]
  | cons c inner ih =>
    have hc : c ≠ mark := fun heq => h (by simp [heq])
    have hinner : mark ∉ inner := fun hmem => h (List.mem_cons_of_mem c hmem)
    rw [List.cons_append, splitAt?, if_neg hc, ih hinner]
    rfl

/-- Whatever does not open with a mark is cut off as a bare word. -/
theorem cut?_of_bare {text : List Char} (h : ∀ c ∈ text.head?, c ≠ '"' ∧ c ≠ '(') :
    Field.cut? text =
      some (if (text.takeWhile inWord).isEmpty then .absent else .bare (text.takeWhile inWord),
        text.dropWhile inWord) := by
  cases text with
  | nil => rfl
  | cons c cs =>
    obtain ⟨hquote, hparen⟩ := h c rfl
    unfold Field.cut?
    split
    case h_1 heq => exact absurd (List.cons.inj heq).1 hquote
    case h_2 heq => exact absurd (List.cons.inj heq).1 hparen
    case h_3 => rfl

/-- A word is cut off where it stops. -/
theorem cut?_word {word : List Char} {c : Char} {cs : List Char} (hword : word = c :: cs)
    (hinside : ∀ c ∈ word, inWord c = true) (hquote : c ≠ '"') (hparen : c ≠ '(')
    {rest : List Char} (hrest : Stops rest) :
    Field.cut? (word ++ rest) = some (.bare word, rest) := by
  have htake : rest.takeWhile inWord = [] := by
    cases rest with
    | nil => rfl
    | cons d ds => simp [hrest d rfl]
  have hdrop : rest.dropWhile inWord = rest := by
    cases rest with
    | nil => rfl
    | cons d ds => simp [hrest d rfl]
  rw [cut?_of_bare, List.takeWhile_append_of_pos hinside, List.dropWhile_append_of_pos hinside,
    htake, hdrop, List.append_nil, hword]
  · rfl
  · rw [hword]
    rintro d ⟨⟩
    exact ⟨hquote, hparen⟩

/-- What a search meets at the front of a text: not the end of the statement, but this field, and
behind it and its padding that rest. -/
def Opens (text : List Char) (field : Field) (more : List Char) : Prop :=
  atEnd (skipPadding text) = false ∧
    ∃ rest, Field.cut? (skipPadding text) = some (field, rest) ∧ skipPadding rest = more

theorem Opens.padded {text : List Char} {field : Field} {more padding : List Char}
    (h : Opens text field more) (hpadding : ∀ c ∈ padding, isPadding c = true) :
    Opens (padding ++ text) field more := by
  rw [Opens, skipPadding_append hpadding]
  exact h

section

variable {after more : List Char} (hafter : ∀ c ∈ after, isPadding c = true) (hstops : Stops more)

include hafter hstops

theorem opens_word {word : List Char} (hinside : ∀ c ∈ word, inWord c = true)
    (hstart : ∃ c rest, word = c :: rest ∧ isPadding c = false ∧ c ≠ '"' ∧ c ≠ '(') :
    Opens (word ++ (after ++ more)) (.bare (word ++ after)) more := by
  obtain ⟨c, cs, rfl, hpadding, hquote, hparen⟩ := hstart
  have hskip : skipPadding (c :: cs ++ (after ++ more)) = c :: cs ++ after ++ more := by
    rw [List.cons_append, skipPadding_cons hpadding, List.append_assoc, List.cons_append]
  have hall : ∀ d ∈ c :: cs ++ after, inWord d = true := by
    intro d hd
    rcases List.mem_append.mp hd with hword | hblank
    · exact hinside d hword
    · exact inWord_of_isPadding (hafter d hblank)
  rw [Opens, hskip]
  refine ⟨?_, more, cut?_word rfl hall hquote hparen hstops, hstops.skipPadding_eq⟩
  have hc := hinside c List.mem_cons_self
  simp only [inWord, Bool.not_eq_true', Bool.or_eq_false_iff] at hc
  exact hc.2

theorem opens_decimal (n : Nat) :
    Opens (Numeral.decimal n ++ (after ++ more)) (.bare (Numeral.decimal n ++ after)) more := by
  apply opens_word hafter hstops
  · intro c hc
    exact (inWord_of_isDecimalDigit (Numeral.isDecimalDigit_of_mem_decimal hc)).1
  · cases hspelled : Numeral.decimal n with
    | nil => exact absurd hspelled (Numeral.decimal_ne_nil n)
    | cons c cs =>
      have hmem : c ∈ Numeral.decimal n := by simp [hspelled]
      obtain ⟨-, hpadding, hquote, hparen, -⟩ :=
        inWord_of_isDecimalDigit (Numeral.isDecimalDigit_of_mem_decimal hmem)
      exact ⟨c, cs, rfl, hpadding, hquote, hparen⟩

/-- Marks protect whatever stands between them. -/
theorem opens_enclosed {opening closing : Char} {field : List Char → Field}
    (hpadding : isPadding opening = false) (hend : endsStatement opening = false)
    (hcut : ∀ text, Field.cut? (opening :: text) =
      (splitAt? closing text).map fun (inner, rest) => (field inner, rest))
    {inner : List Char} (hclosed : closing ∉ inner) :
    Opens (opening :: (inner ++ [closing]) ++ (after ++ more)) (field inner) more := by
  have hskip : skipPadding (opening :: (inner ++ [closing]) ++ (after ++ more)) =
      opening :: (inner ++ closing :: (after ++ more)) := by
    rw [List.cons_append, skipPadding_cons hpadding, List.append_assoc]
    rfl
  rw [Opens, hskip, hcut, splitAt?_append hclosed]
  refine ⟨hend, after ++ more, rfl, ?_⟩
  rw [skipPadding_append hafter, hstops.skipPadding_eq]

end

/-- An empty entry is there only if something follows it in the statement. -/
theorem Padded.opens (item : Padded) {more : List Char} (hstops : Stops more)
    (hthere : item.entry ≠ .empty ∨ atEnd more = false) :
    Opens (item.spell ++ more) item.field more := by
  obtain ⟨before, entry, after, hbefore, hafter⟩ := item
  simp only [Padded.spell, Padded.field, List.append_assoc]
  apply Opens.padded _ hbefore
  cases entry with
  | empty =>
    simp only [ne_eq, not_true_eq_false, false_or] at hthere
    have hskip : skipPadding (after ++ more) = more := by
      rw [skipPadding_append hafter, hstops.skipPadding_eq]
    simp only [Entry.spell, Entry.field, List.nil_append, Opens, hskip]
    refine ⟨hthere, more, ?_, hstops.skipPadding_eq⟩
    cases more with
    | nil => cases hthere
    | cons c cs =>
      have hc : inWord c = false := hstops c rfl
      rw [cut?_of_bare]
      · simp [hc]
      · rintro d ⟨⟩
        constructor <;> rintro rfl <;> cases hc
  | short value => exact opens_decimal hafter hstops value.toNat
  | int value large => exact opens_decimal hafter hstops value.toNat
  | quoted inner closed fits =>
    exact opens_enclosed hafter hstops rfl rfl (fun _ => rfl) closed
  | listed inner closed fits =>
    exact opens_enclosed hafter hstops rfl rfl (fun _ => rfl) closed
  | word text valid => exact opens_word hafter hstops valid.inside valid.start

/-- Padding behind a bare word does not belong to it. -/
theorem parameter?_bare {word after : List Char} (hword : word ≠ [])
    (htrimmed : ∀ c ∈ word.getLast?, Text.isBlank c = false)
    (hafter : ∀ c ∈ after, isPadding c = true) :
    (Field.bare (word ++ after)).parameter? = wordParameter? word := by
  have htrim : Text.trimEnd (word ++ after) = word := by
    rw [Text.trimEnd_append_of_blank fun c hc => isBlank_of_isPadding (hafter c hc),
      Text.trimEnd_eq_self htrimmed]
  simp [Field.parameter?, htrim, hword]

theorem parameter?_decimal (n : Nat) {after : List Char}
    (hafter : ∀ c ∈ after, isPadding c = true) :
    (Field.bare (Numeral.decimal n ++ after)).parameter? =
      wordParameter? (Numeral.decimal n) := by
  apply parameter?_bare (Numeral.decimal_ne_nil n) _ hafter
  intro c hc
  have hdigit := Numeral.isDecimalDigit_of_mem_decimal (List.mem_of_getLast? hc)
  exact (inWord_of_isDecimalDigit hdigit).2.2.2.2

theorem ofText?_of_fits {text : List Char} (h : Fits text) :
    Parameter.ofText? (String.ofList text) = some (.text (String.ofList text)) :=
  if_pos h

/-- The field that an item is read as stands for its parameter. -/
theorem Padded.parameter?_field (item : Padded) :
    item.field.parameter? = some item.entry.parameter := by
  obtain ⟨before, entry, after, hbefore, hafter⟩ := item
  simp only [Padded.field]
  cases entry with
  | empty => rfl
  | short value =>
    have hsmall : value.toNat < 65536 := value.toNat_lt
    rw [Entry.field, parameter?_decimal _ hafter, wordParameter?, Numeral.decimalValue?_decimal]
    simp [hsmall, Entry.parameter]
  | int value large =>
    have hsmall : ¬ value.toNat < 65536 := Nat.not_lt.mpr large
    have hlarge : value.toNat < 4294967296 := value.toNat_lt
    rw [Entry.field, parameter?_decimal _ hafter, wordParameter?, Numeral.decimalValue?_decimal]
    simp [hsmall, hlarge, Entry.parameter]
  | quoted inner closed fits => exact ofText?_of_fits fits
  | listed inner closed fits => exact ofText?_of_fits fits
  | word text valid =>
    obtain ⟨c, cs, htext, -⟩ := valid.start
    have hne : text ≠ [] := by simp [htext]
    rw [Entry.field, parameter?_bare hne valid.trimmed hafter, wordParameter?,
      Numeral.decimalValue?_eq_none valid.not_numeral]
    exact ofText?_of_fits valid.fits

theorem spell_cons_cons (first second : Padded) (items : List Padded) :
    spell (first :: second :: items) = first.spell ++ ',' :: spell (second :: items) := by
  simp [spell, List.intercalate_cons_cons]

theorem Padded.field_of_empty {item : Padded} (h : item.entry = .empty) : item.field = .absent := by
  rw [Padded.field, h]
  rfl

theorem spell_singleton (item : Padded) : spell [item] = item.spell := by
  simp [spell]

/-- Of all items only an empty one at the end looks like the end of the statement. -/
theorem atEnd_skipPadding_spell (item : Padded) (items : List Padded) {ending : List Char}
    (hending : atEnd ending = true) :
    atEnd (skipPadding (spell (item :: items) ++ ending)) = true ↔
      items = [] ∧ item.entry = .empty := by
  cases items with
  | cons second items =>
    have hopens := item.opens (stops_comma (spell (second :: items) ++ ending)) (Or.inr rfl)
    rw [spell_cons_cons, List.append_assoc, List.cons_append, hopens.1]
    simp
  | nil =>
    rw [spell_singleton]
    by_cases hempty : item.entry = .empty
    · have hskip : skipPadding (item.spell ++ ending) = ending := by
        simp only [Padded.spell, hempty, Entry.spell, List.append_nil, List.append_assoc]
        rw [skipPadding_append item.before_padding, skipPadding_append item.after_padding,
          skipPadding_of_atEnd hending]
      simp [hskip, hending, hempty]
    · have hopens := item.opens (stops_of_atEnd hending) (Or.inl hempty)
      simp [hopens.1, hempty]

/-- A search finds the items that were spelled out, whatever ends the statement. A lone empty item
would not be noticed. -/
theorem scan_spell {items : List Padded} {ending : List Char} (hending : atEnd ending = true)
    (hlone : ∀ item, items = [item] → item.entry ≠ .empty) {room : Nat}
    (hroom : items.length ≤ room) :
    scan room (spell items ++ ending) = { fields := items.map Padded.field } := by
  induction items generalizing room with
  | nil =>
    apply scan_of_atEnd
    simp [spell, skipPadding_of_atEnd hending, hending]
  | cons item items ih =>
    obtain ⟨room, rfl⟩ : ∃ less, room = less + 1 := ⟨room - 1, by simp at hroom; omega⟩
    cases items with
    | nil =>
      obtain ⟨hthere, rest, hcut, hrest⟩ :=
        item.opens (stops_of_atEnd hending) (Or.inl (hlone item rfl))
      rw [spell_singleton]
      apply scan_of_last hthere hcut
      intro later hcomma
      rw [hrest.symm.trans hcomma] at hending
      cases hending
    | cons second items =>
      obtain ⟨hthere, rest, hcut, hrest⟩ :=
        item.opens (stops_comma (spell (second :: items) ++ ending)) (Or.inr rfl)
      have hsecond := atEnd_skipPadding_spell second items hending
      have hmore : room ≠ 0 := by simp at hroom; omega
      rw [spell_cons_cons, List.append_assoc, List.cons_append, scan_of_comma hthere hcut hrest]
      by_cases htrailing : items = [] ∧ second.entry = .empty
      · rw [if_pos ⟨hmore, hsecond.mpr htrailing⟩, htrailing.1]
        simp [Padded.field_of_empty htrailing.2]
      · rw [if_neg fun h => htrailing (hsecond.mp h.2), ih _ (Nat.le_of_succ_le_succ hroom)]
        · rfl
        · rintro only ⟨⟩ hempty
          exact htrailing ⟨rfl, hempty⟩

end Statement

namespace Slots

open Statement

/-- Reading undoes writing. All slots get what was spelled out, or are empty. -/
theorem loadAll_spell {limit : Nat} (slots : Slots limit) (items : List Padded)
    (ending : List Char) (hsome : items ≠ [])
    (hlone : ∀ item, items = [item] → item.entry ≠ .empty)
    (hroom : items.length ≤ slots.capacity) (hending : atEnd ending = true) :
    slots.loadAll (spell items ++ ending) =
      (.ok items.length,
        { cells := items.map (fun item => item.entry.parameter) ++
            List.replicate (slots.capacity - items.length) .empty }) := by
  have hallocated : slots.isAllocated = true := by
    have hlength : 0 < items.length := List.length_pos_iff.mpr hsome
    have hcells : slots.cells ≠ [] := List.length_pos_iff.mp (Nat.lt_of_lt_of_le hlength hroom)
    simp [isAllocated, hcells]
  have hparams : parameters (items.map Padded.field) =
      items.map fun item => item.entry.parameter := by
    apply parameters_of_map
    simp [Padded.parameter?_field]
  simp [loadAll, load, hallocated, scan_spell hending hlone hroom, hparams, fill]

theorem isWord_version : IsWord "mfw_1.0".toList where
  inside := List.all_eq_true.mp rfl
  start := ⟨'m', "fw_1.0".toList, rfl, by decide, by decide, by decide⟩
  not_numeral := ⟨'m', by decide, by decide⟩
  trimmed c hc := by
    obtain rfl : '0' = c := Option.some.inj hc
    rfl
  fits := by decide

/-- Empty entries in the middle and at the end, marks around commas, and numbers of both kinds. -/
def mixedItems : List Padded :=
  [{ before := [' '], entry := .short 7 }, { entry := .empty, after := ['\t'] },
    { entry := .quoted "a,b ".toList (by decide) (by decide), after := [' '] },
    { entry := .listed "1,2".toList (by decide) (by decide) },
    { entry := .int 70000 (by decide) }, { entry := .word _ isWord_version, after := [' '] },
    { before := [' '], entry := .empty }]

/-- The slots held something else before, and another statement follows behind the semicolon. -/
theorem loadAll_spell_mixed :
    ({ cells := List.replicate 8 (.text "old") } : Slots 10).loadAll
        " 7,\t,\"a,b \" ,(1,2),70000,mfw_1.0 , ;9".toList =
      (.ok 7,
        { cells := [.short 7, .empty, .text "a,b", .text "(1,2)", .int 70000, .text "mfw_1.0",
            .empty, .empty] }) := by
  have hspelled : spell mixedItems ++ ";9".toList =
      " 7,\t,\"a,b \" ,(1,2),70000,mfw_1.0 , ;9".toList := by cbv
  rw [← hspelled, loadAll_spell _ mixedItems ";9".toList (by simp [mixedItems])
    (by simp [mixedItems]) (by decide) (by decide)]
  decide

end Slots

end CellModem
