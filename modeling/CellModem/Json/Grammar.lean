import Mathlib.Algebra.Field.Rat
import CellModem.Json

/-!
JSON texts by their grammar: what a text says, with white space wherever it may stand, all escapes,
and numbers of any form. No text says two things.
-/

namespace CellModem.Json

/-- What a JSON text says. -/
inductive Value where
  | null
  | flag (value : Bool)
  | number (value : ℚ)
  | text (value : String)
  | array (items : List Value)
  | object (members : List (String × Value))

/-- White space that may stand in front of every token. -/
def isSpace (c : Char) : Bool :=
  c == ' ' || c == '\t' || c == '\n' || c == '\r'

/-- What a letter or mark stands for behind a backslash. -/
def escaped? : Char → Option Char
  | '"' => some '"'
  | '\\' => some '\\'
  | '/' => some '/'
  | 'b' => some '\x08'
  | 'f' => some '\x0c'
  | 'n' => some '\n'
  | 'r' => some '\r'
  | 't' => some '\t'
  | _ => none

/-- A code unit of UTF-16 in four hexadecimal digits, and what stands behind them. -/
def unit? : List Char → Option (Nat × List Char)
  | a :: b :: c :: d :: rest => (Numeral.hexValue? [a, b, c, d]).map fun unit => (unit, rest)
  | _ => none

/-- The character of a code unit, or of a pair of surrogates with an escape of its own for each. -/
def codeUnits? (cs : List Char) : Option (Char × List Char) := do
  let (high, rest) ← unit? cs
  if high < 0xD800 ∨ 0xDFFF < high then return (Char.ofNat high, rest)
  else
    match rest with
    | '\\' :: 'u' :: rest =>
      let (low, rest) ← unit? rest
      if high < 0xDC00 ∧ 0xDC00 ≤ low ∧ low ≤ 0xDFFF then
        return (Char.ofNat (0x10000 + (high - 0xD800) * 0x400 + (low - 0xDC00)), rest)
      else none
    | _ => none

/-- A code unit that is no surrogate is a character. -/
theorem codeUnits?_of_unit? {cs rest : List Char} {unit : Nat} (h : unit? cs = some (unit, rest))
    (hplain : unit < 0xD800) : codeUnits? cs = some (Char.ofNat unit, rest) := by
  simp only [codeUnits?, h, Option.bind_eq_bind, Option.bind_some, hplain, true_or, if_true]
  rfl

example : codeUnits? "d83d\\ude00!".toList = some ('😀', ['!']) := by decide

/-- What stands behind a backslash. -/
def escape? : List Char → Option (Char × List Char)
  | [] => none
  | mark :: rest =>
    if mark = 'u' then codeUnits? rest else (escaped? mark).map fun c => (c, rest)

/-- The first character between quotation marks, escaped or not, and what stands behind it. -/
def character? : List Char → Option (Char × List Char)
  | [] => none
  | c :: rest =>
    if c = '\\' then escape? rest
    else if c = '"' ∨ c.toNat < 0x20 then none
    else some (c, rest)

theorem length_lt_of_unit? {cs rest : List Char} {unit : Nat} (h : unit? cs = some (unit, rest)) :
    rest.length < cs.length := by
  unfold unit? at h
  split at h
  case h_1 a b c d behind =>
    obtain ⟨value, -, hpair⟩ := Option.map_eq_some_iff.mp h
    cases hpair
    simp only [List.length_cons]
    omega
  case h_2 => cases h

theorem length_lt_of_codeUnits? {cs rest : List Char} {c : Char}
    (h : codeUnits? cs = some (c, rest)) : rest.length < cs.length := by
  simp only [codeUnits?, Option.bind_eq_bind, Option.bind_eq_some_iff, Prod.exists] at h
  obtain ⟨high, behind, hhigh, h⟩ := h
  have hfirst := length_lt_of_unit? hhigh
  split at h
  case isTrue =>
    have hrest : behind = rest := congrArg Prod.snd (Option.some.inj h)
    exact hrest ▸ hfirst
  case isFalse =>
    split at h
    case h_1 later =>
      simp only [Option.bind_eq_some_iff, Prod.exists] at h
      obtain ⟨low, last, hlow, h⟩ := h
      have hsecond := length_lt_of_unit? hlow
      simp only [List.length_cons] at hfirst
      split at h
      case isTrue =>
        have hrest : last = rest := congrArg Prod.snd (Option.some.inj h)
        rw [← hrest]
        omega
      case isFalse => cases h
    case h_2 => cases h

theorem length_lt_of_escape? {cs rest : List Char} {c : Char} (h : escape? cs = some (c, rest)) :
    rest.length < cs.length := by
  cases cs with
  | nil => cases h
  | cons mark behind =>
    rw [escape?] at h
    split at h
    case isTrue => exact Nat.lt_succ_of_lt (length_lt_of_codeUnits? h)
    case isFalse =>
      obtain ⟨d, -, hpair⟩ := Option.map_eq_some_iff.mp h
      cases hpair
      exact Nat.lt_succ_self _

theorem length_lt_of_character? {cs rest : List Char} {c : Char}
    (h : character? cs = some (c, rest)) : rest.length < cs.length := by
  cases cs with
  | nil => cases h
  | cons d behind =>
    rw [character?] at h
    split at h
    case isTrue => exact Nat.lt_succ_of_lt (length_lt_of_escape? h)
    case isFalse =>
      split at h
      case isTrue => cases h
      case isFalse =>
        cases h
        exact Nat.lt_succ_self _

/-- The characters up to the closing quotation mark, and what stands behind it. -/
def quoted? (cs : List Char) : Option (List Char × List Char) :=
  if cs.head? = some '"' then some ([], cs.tail)
  else
    match _h : character? cs with
    | some (c, behind) => (quoted? behind).map fun (later, rest) => (c :: later, rest)
    | none => none
termination_by cs.length
decreasing_by exact length_lt_of_character? _h

/-- The digits in front, leading zeros allowed. -/
def digits? (cs : List Char) : Option (Nat × List Char) :=
  (Numeral.decimalValue? (cs.takeWhile Numeral.isDecimalDigit)).map fun value =>
    (value, cs.dropWhile Numeral.isDecimalDigit)

/-- The whole part of a number, which begins with a zero only if it is one. -/
def whole? (cs : List Char) : Option (Nat × List Char) :=
  let word := cs.takeWhile Numeral.isDecimalDigit
  if word.head? = some '0' ∧ word ≠ ['0'] then none else digits? cs

/-- A fraction, if there is one. -/
def fraction? : List Char → Option (ℚ × List Char)
  | '.' :: cs =>
    (digits? cs).map fun (value, rest) =>
      ((value : ℚ) / 10 ^ (cs.takeWhile Numeral.isDecimalDigit).length, rest)
  | cs => some (0, cs)

/-- The digits of an exponent, with a sign or without. -/
def power? : List Char → Option (ℤ × List Char)
  | '-' :: cs => (digits? cs).map fun (value, rest) => (-(value : ℤ), rest)
  | '+' :: cs => (digits? cs).map fun (value, rest) => ((value : ℤ), rest)
  | cs => (digits? cs).map fun (value, rest) => ((value : ℤ), rest)

/-- An exponent, if there is one. -/
def exponent? : List Char → Option (ℤ × List Char)
  | 'e' :: cs => power? cs
  | 'E' :: cs => power? cs
  | cs => some (0, cs)

def magnitude? (cs : List Char) : Option (ℚ × List Char) := do
  let (whole, cs) ← whole? cs
  let (part, cs) ← fraction? cs
  let (power, cs) ← exponent? cs
  return ((whole + part) * 10 ^ power, cs)

def number? : List Char → Option (ℚ × List Char)
  | '-' :: cs => (magnitude? cs).map fun (value, rest) => (-value, rest)
  | cs => magnitude? cs

example : number? "-12.50e+2]".toList = some (-1250, [']']) := by cbv

/-- What a text is made up of: structural characters, and values without parts. -/
inductive Token where
  | mark (c : Char)
  | scalar (value : Value)

/-- Values with names. -/
def literals : List (List Char × Value) :=
  [(['n', 'u', 'l', 'l'], .null), (['t', 'r', 'u', 'e'], .flag true),
    (['f', 'a', 'l', 's', 'e'], .flag false)]

def literal? (cs : List Char) : Option (Value × List Char) :=
  literals.findSome? fun (name, v) =>
    if name.isPrefixOf cs then some (v, cs.drop name.length) else none

def structural : List Char :=
  ['[', ']', '\x7b', '\x7d', ':', ',']

/-- The first token, and what stands behind it. -/
def token? (cs : List Char) : Option (Token × List Char) :=
  match cs.dropWhile isSpace with
  | [] => none
  | c :: cs =>
    if c ∈ structural then some (.mark c, cs)
    else if c = '"' then
      (quoted? cs).map fun (value, rest) => (.scalar (.text (String.ofList value)), rest)
    else
      ((literal? (c :: cs)).or ((number? (c :: cs)).map fun (value, rest) =>
        (.number value, rest))).map fun (value, rest) => (.scalar value, rest)

/-- What is found at the front of a text, and what stands behind it. -/
abbrev Phrase (α : Type) :=
  List Char → α → List Char → Prop

/-- Items between commas, up to the closing mark. -/
inductive Series {α : Type} (Item : Phrase α) (closing : Char) : Phrase (List α)
  | last {text behind rest : List Char} {a : α} (hitem : Item text a behind)
    (hclose : token? behind = some (.mark closing, rest)) : Series Item closing text [a] rest
  | more {text behind later rest : List Char} {a : α} {items : List α}
    (hitem : Item text a behind) (hcomma : token? behind = some (.mark ',', later))
    (hlater : Series Item closing later items rest) : Series Item closing text (a :: items) rest

/-- Items between an opening and a closing mark. There may be none. -/
inductive Enclosed {α : Type} (Item : Phrase α) (opening closing : Char) : Phrase (List α)
  | empty {text inner rest : List Char} (hopen : token? text = some (.mark opening, inner))
    (hclose : token? inner = some (.mark closing, rest)) : Enclosed Item opening closing text [] rest
  | filled {text inner rest : List Char} {items : List α}
    (hopen : token? text = some (.mark opening, inner))
    (hitems : Series Item closing inner items rest) : Enclosed Item opening closing text items rest

mutual

/-- A text begins with a value. -/
inductive Reads : Phrase Value
  | scalar {text rest : List Char} {v : Value} (h : token? text = some (.scalar v, rest)) :
    Reads text v rest
  | array {text rest : List Char} {items : List Value}
    (h : Enclosed Reads '[' ']' text items rest) : Reads text (.array items) rest
  | object {text rest : List Char} {members : List (String × Value)}
    (h : Enclosed ReadsMember '\x7b' '\x7d' text members rest) : Reads text (.object members) rest

/-- A name, a colon and a value. -/
inductive ReadsMember : Phrase (String × Value)
  | mk {text colon inner rest : List Char} {name : String} {v : Value}
    (hname : token? text = some (.scalar (.text name), colon))
    (hcolon : token? colon = some (.mark ':', inner)) (hvalue : Reads inner v rest) :
    ReadsMember text (name, v) rest

end

/-- A text says a value if it begins with it and nothing but white space stands behind. -/
def Says (text : String) (v : Value) : Prop :=
  ∃ rest, Reads text.toList v rest ∧ rest.dropWhile isSpace = []

/-- Nothing but this is found at the front of a text. -/
def Only {α : Type} (Found : Phrase α) (text : List Char) (a : α) (rest : List Char) : Prop :=
  ∀ b left, Found text b left → b = a ∧ left = rest

/-- A phrase that does not begin with this mark, so that the mark ends a series of it. -/
def EndsAt {α : Type} (Item : Phrase α) (closing : Char) : Prop :=
  ∀ text a rest left, Item text a rest → token? text ≠ some (.mark closing, left)

section Series

variable {α : Type} {Item : Phrase α} {opening closing : Char}
  {text inner behind later rest left : List Char} {a : α} {items : List α}

theorem Series.token?_ne (hends : EndsAt Item closing) (h : Series Item closing text items rest) :
    token? text ≠ some (.mark closing, left) := by
  cases h with
  | last hitem | more hitem => exact hends _ _ _ _ hitem

theorem Enclosed.exists_opening (h : Enclosed Item opening closing text items rest) :
    ∃ inner, token? text = some (.mark opening, inner) := by
  cases h with
  | empty hopen | filled hopen => exact ⟨_, hopen⟩

theorem only_last (hclosing : closing ≠ ',') (honly : Only Item text a behind)
    (hclose : token? behind = some (.mark closing, rest)) :
    Only (Series Item closing) text [a] rest := by
  intro others left hother
  cases hother with
  | last hitem hclose' =>
    obtain ⟨rfl, rfl⟩ := honly _ _ hitem
    rw [hclose] at hclose'
    cases hclose'
    exact ⟨rfl, rfl⟩
  | more hitem hcomma =>
    obtain ⟨rfl, rfl⟩ := honly _ _ hitem
    rw [hclose] at hcomma
    cases hcomma
    exact absurd rfl hclosing

theorem only_more (hclosing : closing ≠ ',') (honly : Only Item text a behind)
    (hcomma : token? behind = some (.mark ',', later))
    (hlater : Only (Series Item closing) later items rest) :
    Only (Series Item closing) text (a :: items) rest := by
  intro others left hother
  cases hother with
  | last hitem hclose =>
    obtain ⟨rfl, rfl⟩ := honly _ _ hitem
    rw [hcomma] at hclose
    cases hclose
    exact absurd rfl hclosing
  | more hitem hcomma' hlater' =>
    obtain ⟨rfl, rfl⟩ := honly _ _ hitem
    rw [hcomma] at hcomma'
    cases hcomma'
    obtain ⟨rfl, rfl⟩ := hlater _ _ hlater'
    exact ⟨rfl, rfl⟩

theorem only_empty (hends : EndsAt Item closing)
    (hopen : token? text = some (.mark opening, inner))
    (hclose : token? inner = some (.mark closing, rest)) :
    Only (Enclosed Item opening closing) text [] rest := by
  intro others left hother
  cases hother with
  | empty hopen' hclose' =>
    rw [hopen] at hopen'
    cases hopen'
    rw [hclose] at hclose'
    cases hclose'
    exact ⟨rfl, rfl⟩
  | filled hopen' hitems =>
    rw [hopen] at hopen'
    cases hopen'
    exact absurd hclose (hitems.token?_ne hends)

theorem only_filled (hends : EndsAt Item closing)
    (hopen : token? text = some (.mark opening, inner))
    (hitems : Series Item closing inner items rest)
    (honly : Only (Series Item closing) inner items rest) :
    Only (Enclosed Item opening closing) text items rest := by
  intro others left hother
  cases hother with
  | empty hopen' hclose =>
    rw [hopen] at hopen'
    cases hopen'
    exact absurd hclose (hitems.token?_ne hends)
  | filled hopen' hitems' =>
    rw [hopen] at hopen'
    cases hopen'
    exact honly _ _ hitems'

end Series

section Values

variable {text colon inner rest : List Char} {v : Value} {name : String} {items : List Value}
  {members : List (String × Value)}

theorem reads_endsAt : EndsAt Reads ']' := by
  intro text v rest left h hclose
  cases h with
  | scalar htoken =>
    rw [hclose] at htoken
    cases htoken
  | array h | object h =>
    obtain ⟨inner, hopen⟩ := h.exists_opening
    rw [hclose] at hopen
    cases hopen

theorem readsMember_endsAt : EndsAt ReadsMember '\x7d' := by
  rintro text member rest left ⟨hname, -, -⟩ hclose
  rw [hclose] at hname
  cases hname

theorem only_scalar (h : token? text = some (.scalar v, rest)) : Only Reads text v rest := by
  intro w left hother
  cases hother with
  | scalar h' =>
    rw [h] at h'
    cases h'
    exact ⟨rfl, rfl⟩
  | array h' | object h' =>
    obtain ⟨inner, hopen⟩ := h'.exists_opening
    rw [h] at hopen
    cases hopen

theorem only_array (h : Enclosed Reads '[' ']' text items rest)
    (honly : Only (Enclosed Reads '[' ']') text items rest) :
    Only Reads text (.array items) rest := by
  obtain ⟨inner, hopen⟩ := h.exists_opening
  intro w left hother
  cases hother with
  | scalar htoken =>
    rw [hopen] at htoken
    cases htoken
  | array h' =>
    obtain ⟨rfl, rfl⟩ := honly _ _ h'
    exact ⟨rfl, rfl⟩
  | object h' =>
    obtain ⟨inner', hopen'⟩ := h'.exists_opening
    rw [hopen] at hopen'
    cases hopen'

theorem only_object (h : Enclosed ReadsMember '\x7b' '\x7d' text members rest)
    (honly : Only (Enclosed ReadsMember '\x7b' '\x7d') text members rest) :
    Only Reads text (.object members) rest := by
  obtain ⟨inner, hopen⟩ := h.exists_opening
  intro w left hother
  cases hother with
  | scalar htoken =>
    rw [hopen] at htoken
    cases htoken
  | array h' =>
    obtain ⟨inner', hopen'⟩ := h'.exists_opening
    rw [hopen] at hopen'
    cases hopen'
  | object h' =>
    obtain ⟨rfl, rfl⟩ := honly _ _ h'
    exact ⟨rfl, rfl⟩

theorem only_member (hname : token? text = some (.scalar (.text name), colon))
    (hcolon : token? colon = some (.mark ':', inner)) (honly : Only Reads inner v rest) :
    Only ReadsMember text (name, v) rest := by
  rintro other left ⟨hname', hcolon', hvalue⟩
  rw [hname] at hname'
  cases hname'
  rw [hcolon] at hcolon'
  cases hcolon'
  obtain ⟨rfl, rfl⟩ := honly _ _ hvalue
  exact ⟨rfl, rfl⟩

end Values

/-- A text begins with one value at most. -/
theorem Reads.only {text rest : List Char} {v : Value} (h : Reads text v rest) :
    Only Reads text v rest := by
  -- by induction on the derivation, with one step for each rule of the grammar
  refine @Reads.rec (fun text v rest _ => Only Reads text v rest)
    (fun text member rest _ => Only ReadsMember text member rest)
    (fun text items rest _ => Only (Enclosed Reads '[' ']') text items rest)
    (fun text members rest _ => Only (Enclosed ReadsMember '\x7b' '\x7d') text members rest)
    (fun text items rest _ => Only (Series Reads ']') text items rest)
    (fun text members rest _ => Only (Series ReadsMember '\x7d') text members rest)
    only_scalar only_array only_object (fun hname hcolon _ => only_member hname hcolon)
    (only_empty reads_endsAt) (only_filled reads_endsAt)
    (only_empty readsMember_endsAt) (only_filled readsMember_endsAt)
    ?lastItem ?moreItems ?lastMember ?moreMembers text v rest h
  case lastItem => exact fun _ hclose honly => only_last (by decide) honly hclose
  case moreItems => exact fun _ hcomma _ honly hlater => only_more (by decide) honly hcomma hlater
  case lastMember => exact fun _ hclose honly => only_last (by decide) honly hclose
  case moreMembers => exact fun _ hcomma _ honly hlater => only_more (by decide) honly hcomma hlater

/-- No text says two things. -/
theorem Says.unique {text : String} {v w : Value} (h : Says text v) (hother : Says text w) :
    v = w := by
  obtain ⟨rest, hread, -⟩ := h
  obtain ⟨left, hreadOther, -⟩ := hother
  exact (hreadOther.only _ _ hread).1

end CellModem.Json
