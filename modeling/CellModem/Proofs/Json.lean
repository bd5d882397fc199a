import CellModem.Json.Grammar
import CellModem.Proofs.Spelling

/-!
JSON text as it is written is JSON by the grammar, and says what was written: escapes are undone
exactly, and no text between quotation marks can be taken for structure.
-/

namespace CellModem.Json

mutual

/-- What is written. -/
def value : Json → Value
  | .text s => .text s
  | .number n => .number n
  | .flag b => .flag b
  | .object members => .object (values members)

def values : List (String × Json) → List (String × Value)
  | [] => []
  | (name, json) :: members => (name, json.value) :: values members

end

@[simp] theorem value_text (s : String) : (text s).value = .text s := by rw [value]

@[simp] theorem value_number (n : Nat) : (number n).value = .number n := by rw [value]

@[simp] theorem value_flag (b : Bool) : (flag b).value = .flag b := by rw [value]

theorem values_eq_map (members : List (String × Json)) :
    values members = members.map fun (name, json) => (name, json.value) := by
  induction members with
  | nil => rw [values, List.map_nil]
  | cons member members ih =>
    rw [values, ih]
    rfl

@[simp] theorem value_object (members : List (String × Json)) :
    (object members).value = .object (members.map fun (name, json) => (name, json.value)) := by
  rw [value, values_eq_map]

/-- The code of a control character is undone. -/
theorem hexValue?_control {code : Nat} (h : code < 0x20) :
    Numeral.hexValue? ['0', '0', hexDigit (code / 16), hexDigit (code % 16)] = some code := by
  have hall : ∀ code < 0x20,
      Numeral.hexValue? ['0', '0', hexDigit (code / 16), hexDigit (code % 16)] = some code := by
    decide
  exact hall code h

/-- Every character is read back from its escape. -/
theorem character?_escapeChar (c : Char) (rest : List Char) :
    character? (escapeChar c ++ rest) = some (c, rest) := by
  unfold escapeChar
  split_ifs with hquote hslash hback hfeed hline hreturn htab hcontrol
  · rw [hquote]; rfl
  · rw [hslash]; rfl
  · rw [hback]; rfl
  · rw [hfeed]; rfl
  · rw [hline]; rfl
  · rw [hreturn]; rfl
  · rw [htab]; rfl
  · have hunit : unit? ('0' :: '0' :: hexDigit (c.toNat / 16) :: hexDigit (c.toNat % 16) :: rest) =
        some (c.toNat, rest) := by
      rw [unit?, hexValue?_control hcontrol]
      rfl
    have hread := codeUnits?_of_unit? hunit (by omega)
    rw [Char.ofNat_toNat] at hread
    exact hread
  · rw [List.singleton_append, character?, if_neg hslash, if_neg (by simp [hquote, hcontrol])]

/-- And so is every text between quotation marks. -/
theorem quoted?_renderText (cs rest : List Char) :
    quoted? (cs.flatMap escapeChar ++ '"' :: rest) = some (cs, rest) := by
  induction cs with
  | nil => rw [quoted?]; rfl
  | cons c cs ih =>
    have hfirst := character?_escapeChar c (cs.flatMap escapeChar ++ '"' :: rest)
    have hopen : (escapeChar c ++ (cs.flatMap escapeChar ++ '"' :: rest)).head? ≠ some '"' := by
      intro hclosing
      obtain ⟨behind, hbehind⟩ := List.head?_eq_some_iff.mp hclosing
      rw [hbehind] at hfirst
      exact nomatch hfirst
    rw [List.flatMap_cons, List.append_assoc, quoted?, if_neg hopen]
    split
    case h_1 hcharacter =>
      rw [hfirst] at hcharacter
      cases hcharacter
      rw [ih]
      rfl
    case h_2 hnone =>
      rw [hfirst] at hnone
      cases hnone

theorem token?_renderText (cs rest : List Char) :
    token? (renderText cs ++ rest) = some (.scalar (.text (String.ofList cs)), rest) := by
  have hquoted := quoted?_renderText cs rest
  rw [renderText, List.cons_append, List.append_assoc, List.singleton_append]
  change (quoted? _).map _ = _
  rw [hquoted]
  rfl

/-- What may stand behind a value that is written: a structural character or nothing, so that a
number has come to its end there. -/
def Follows (rest : List Char) : Prop :=
  ∀ c ∈ rest.head?, c = ',' ∨ c = '\x7d'

theorem follows_nil : Follows [] := by
  simp [Follows]

theorem follows_comma (rest : List Char) : Follows (',' :: rest) := by
  simp [Follows]

theorem follows_brace (rest : List Char) : Follows ('\x7d' :: rest) := by
  simp [Follows]

section Numbers

variable {rest : List Char}

theorem isDecimalDigit_of_follows (h : Follows rest) {c : Char} (hc : c ∈ rest.head?) :
    Numeral.isDecimalDigit c = false := by
  rcases h c hc with rfl | rfl <;> decide

theorem takeWhile_decimal (h : Follows rest) (n : Nat) :
    (Numeral.decimal n ++ rest).takeWhile Numeral.isDecimalDigit = Numeral.decimal n := by
  rw [List.takeWhile_append_of_pos fun c hc => Numeral.isDecimalDigit_of_mem_decimal hc]
  cases rest with
  | nil => exact List.append_nil _
  | cons c cs =>
    rw [List.takeWhile_cons_of_neg (by simp [isDecimalDigit_of_follows h rfl]), List.append_nil]

theorem dropWhile_decimal (h : Follows rest) (n : Nat) :
    (Numeral.decimal n ++ rest).dropWhile Numeral.isDecimalDigit = rest := by
  rw [List.dropWhile_append_of_pos fun c hc => Numeral.isDecimalDigit_of_mem_decimal hc]
  cases rest with
  | nil => rfl
  | cons c cs => exact List.dropWhile_cons_of_neg (by simp [isDecimalDigit_of_follows h rfl])

/-- Only zero begins with a zero. -/
theorem eq_zero_of_head?_decimal {n : Nat} (h : (Numeral.decimal n).head? = some '0') : n = 0 := by
  induction n using Nat.strongRecOn with
  | ind n ih =>
    have hdigit : ∀ d < 10, Numeral.digitChar d = '0' → d = 0 := by decide
    rw [Numeral.decimal] at h
    split at h
    case isTrue hsmall => exact hdigit n hsmall (Option.some.inj h)
    case isFalse hlarge =>
      rw [List.head?_append_of_ne_nil _ (Numeral.decimal_ne_nil (n / 10))] at h
      have hfront := ih (n / 10) (by omega) h
      omega

theorem decimal_zero : Numeral.decimal 0 = ['0'] := by
  rw [Numeral.decimal]
  rfl

theorem whole?_decimal (h : Follows rest) (n : Nat) :
    whole? (Numeral.decimal n ++ rest) = some (n, rest) := by
  have hzero : ¬((Numeral.decimal n).head? = some '0' ∧ Numeral.decimal n ≠ ['0']) := by
    rintro ⟨hhead, hne⟩
    obtain rfl := eq_zero_of_head?_decimal hhead
    exact hne decimal_zero
  rw [whole?, takeWhile_decimal h, if_neg hzero, digits?, takeWhile_decimal h, dropWhile_decimal h,
    Numeral.decimalValue?_decimal]
  rfl

theorem fraction?_of_follows (h : Follows rest) : fraction? rest = some (0, rest) := by
  unfold fraction?
  split
  case h_1 => simp [Follows] at h
  case h_2 => rfl

theorem exponent?_of_follows (h : Follows rest) : exponent? rest = some (0, rest) := by
  unfold exponent?
  split
  case h_1 => simp [Follows] at h
  case h_2 => simp [Follows] at h
  case h_3 => rfl

theorem magnitude?_decimal (h : Follows rest) (n : Nat) :
    magnitude? (Numeral.decimal n ++ rest) = some ((n : ℚ), rest) := by
  simp [magnitude?, whole?_decimal h, fraction?_of_follows h, exponent?_of_follows h]

theorem token?_of_isDecimalDigit {c : Char} (hc : Numeral.isDecimalDigit c = true)
    (cs : List Char) :
    token? (c :: cs) =
      (magnitude? (c :: cs)).map fun (value, rest) => (.scalar (.number value), rest) := by
  have hne (other : Char) (hother : Numeral.isDecimalDigit other = false) : c ≠ other := by
    rintro rfl
    exact Bool.false_ne_true (hother.symm.trans hc)
  have hspace : (c :: cs).dropWhile isSpace = c :: cs := by
    apply List.dropWhile_cons_of_neg
    simp [isSpace, hne ' ' (by decide), hne '\t' (by decide), hne '\n' (by decide),
      hne '\r' (by decide)]
  have hsign : number? (c :: cs) = magnitude? (c :: cs) := by
    unfold number?
    split
    case h_1 _ hminus => exact absurd (List.cons.inj hminus).1 (hne _ (by decide))
    case h_2 => rfl
  have hmark : c ∉ structural := by
    simp [structural, hne '[' (by decide), hne ']' (by decide), hne '\x7b' (by decide),
      hne '\x7d' (by decide), hne ':' (by decide), hne ',' (by decide)]
  have hliteral : literal? (c :: cs) = none := by
    have hn : 'n' ≠ c := (hne _ (by decide)).symm
    have ht : 't' ≠ c := (hne _ (by decide)).symm
    have hf : 'f' ≠ c := (hne _ (by decide)).symm
    simp [literal?, literals, hn, ht, hf]
  simp only [token?, hspace, hmark, if_false, hne '"' (by decide), hliteral, hsign,
    Option.none_or, Option.map_map]
  rfl

/-- A numeral is read as its number. -/
theorem token?_decimal (h : Follows rest) (n : Nat) :
    token? (Numeral.decimal n ++ rest) = some (.scalar (.number n), rest) := by
  obtain ⟨c, cs, hfirst⟩ := List.exists_cons_of_ne_nil (Numeral.decimal_ne_nil n)
  have hdigit : Numeral.isDecimalDigit c = true :=
    Numeral.isDecimalDigit_of_mem_decimal (n := n) (by rw [hfirst]; exact List.mem_cons_self)
  have hread := magnitude?_decimal h n
  rw [hfirst, List.cons_append] at hread ⊢
  rw [token?_of_isDecimalDigit hdigit, hread]
  rfl

end Numbers

/-- A structural character is a token of its own. -/
theorem token?_mark {c : Char} (hc : c ∈ structural) (rest : List Char) :
    token? (c :: rest) = some (.mark c, rest) := by
  have hspace : isSpace c = false := by
    simp only [structural, List.mem_cons, List.not_mem_nil, or_false] at hc
    rcases hc with rfl | rfl | rfl | rfl | rfl | rfl <;> rfl
  simp only [token?, List.dropWhile_cons, hspace, Bool.false_eq_true, if_false, hc, if_true]

theorem token?_flag (b : Bool) (rest : List Char) :
    token? ((Json.flag b).render ++ rest) = some (.scalar (.flag b), rest) := by
  cases b <;> rw [render] <;> rfl

mutual

/-- What is written is read back. -/
theorem reads_render (json : Json) {rest : List Char} (h : Follows rest) :
    Reads (json.render ++ rest) json.value rest := by
  match json with
  | .text s =>
    have htoken := token?_renderText s.toList rest
    rw [String.ofList_toList] at htoken
    rw [render, value]
    exact .scalar htoken
  | .number n =>
    rw [render, value]
    exact .scalar (token?_decimal h n)
  | .flag b =>
    rw [value]
    exact .scalar (token?_flag b rest)
  | .object [] =>
    rw [render, value, values]
    exact .object (.empty (token?_mark (by decide) _) (token?_mark (by decide) rest))
  | .object ((name, json) :: members) =>
    rw [render, value, List.cons_append]
    exact .object
      (.filled (token?_mark (by decide) _) (series_renderLater name json members rest))
termination_by sizeOf json

/-- And so are the members of an object, behind its opening brace. -/
theorem series_renderLater (name : String) (json : Json) (members : List (String × Json))
    (rest : List Char) :
    Series ReadsMember '\x7d'
      (renderText name.toList ++ ':' :: (json.render ++ renderLater members) ++ rest)
      (values ((name, json) :: members)) rest := by
  have hname := token?_renderText name.toList (':' :: (json.render ++ (renderLater members ++ rest)))
  rw [String.ofList_toList] at hname
  have hcolon := token?_mark (c := ':') (by decide) (json.render ++ (renderLater members ++ rest))
  rw [List.append_assoc, List.cons_append, List.append_assoc, values]
  match members with
  | [] =>
    have hvalue := reads_render json (follows_brace rest)
    exact .last (.mk hname hcolon hvalue) (token?_mark (by decide) rest)
  | (next, later) :: members =>
    have hvalue := reads_render json (follows_comma
      (renderText next.toList ++ ':' :: (later.render ++ renderLater members) ++ rest))
    rw [renderLater] at hname hcolon ⊢
    exact .more (.mk hname hcolon hvalue) (token?_mark (by decide) _)
      (series_renderLater next later members rest)
termination_by sizeOf ((name, json) :: members)

end

/-- As a text of its own it says what was written, and nothing else. -/
theorem says_render_iff (json : Json) (v : Value) :
    Says (String.ofList json.render) v ↔ v = json.value := by
  have hread := reads_render json follows_nil
  rw [List.append_nil] at hread
  have hsays : Says (String.ofList json.render) json.value :=
    ⟨[], String.toList_ofList.symm ▸ hread, rfl⟩
  constructor
  · exact fun h => h.unique hsays
  · rintro rfl
    exact hsays

end CellModem.Json
