import CellModem.Numeral
import CellModem.Parameter
import CellModem.Text.Blank

/-!
The parameters of one response statement, such as ` 0,2,"24201",7`. Fields stand between commas,
with spaces and tabs around them, and the statement ends at a line end, a NUL, a semicolon or the
end of the text. `Field.parameter?` says what a field is worth; `scan` cuts at most a given number
of fields off the text.
-/

namespace CellModem.Statement

/-- Carriage return, line feed, NUL and semicolon end a statement. -/
def endsStatement (c : Char) : Bool :=
  c == '\r' || c == '\n' || c == '\x00' || c == ';'

def isPadding (c : Char) : Bool :=
  c == ' ' || c == '\t'

def skipPadding (cs : List Char) : List Char :=
  cs.dropWhile isPadding

/-- Nothing of the statement is left. -/
def atEnd : List Char → Bool
  | [] => true
  | c :: _ => endsStatement c

/-- One comma separated field, as it is spelled. -/
inductive Field where
  /-- Nothing between two commas. -/
  | absent
  /-- The text between two quotation marks. -/
  | quoted (inner : List Char)
  /-- The text between two parentheses. -/
  | listed (inner : List Char)
  | bare (word : List Char)
  deriving DecidableEq, Repr

/-- A bare word that consists of digits alone is a number as long as 32 bits hold its value: of the
small kind below 65536 and of the large kind otherwise. Every other word is a text. -/
def wordParameter? (word : List Char) : Option Parameter :=
  match Numeral.decimalValue? word with
  | none => Parameter.ofText? (String.ofList word)
  | some v =>
    if v < 65536 then some (.short (UInt16.ofNat v))
    else if v < 4294967296 then some (.int (UInt32.ofNat v))
    else Parameter.ofText? (String.ofList word)

/-- The parameter a field stands for, blanks at its end removed; none if it is a text too long to
be stored. Quoted digits stay a text, and a list keeps its parentheses. -/
def Field.parameter? : Field → Option Parameter
  | .absent => some .empty
  | .quoted inner => Parameter.ofText? (String.ofList (Text.trimEnd inner))
  | .listed inner => Parameter.ofText? (String.ofList ('(' :: (inner ++ [')'])))
  | .bare word =>
    let word := Text.trimEnd word
    if word.isEmpty then some .empty else wordParameter? word

/-- The text in front of the first `mark` and the text behind it. -/
def splitAt? (mark : Char) : List Char → Option (List Char × List Char)
  | [] => none
  | c :: cs =>
    if c = mark then some ([], cs)
    else (splitAt? mark cs).map fun (front, rest) => (c :: front, rest)

/-- A bare word goes on up to a comma or the end of the statement. -/
def inWord (c : Char) : Bool :=
  !(c == ',' || endsStatement c)

/-- Cut the field off a text that starts with it. None if its closing mark is missing; the mark is
looked for in the whole text, beyond the end of the line too. -/
def Field.cut? : List Char → Option (Field × List Char)
  | '"' :: cs => (splitAt? '"' cs).map fun (inner, rest) => (.quoted inner, rest)
  | '(' :: cs => (splitAt? ')' cs).map fun (inner, rest) => (.listed inner, rest)
  | cs =>
    let word := cs.takeWhile inWord
    some (if word.isEmpty then .absent else .bare word, cs.dropWhile inWord)

/-- The fields in front of the place where reading stopped. -/
structure Scan where
  fields : List Field := []
  /-- Reading stopped at a field whose closing mark is missing. -/
  unclosed : Bool := false
  deriving DecidableEq, Repr

/-- Cut at most `room` fields off a text. A comma at the end of the statement opens one more field,
an absent one, if there is room for it. -/
def scan : (room : Nat) → List Char → Scan
  | 0, _ => {}
  | room + 1, text =>
    let text := skipPadding text
    if atEnd text then {}
    else
      match Field.cut? text with
      | none => { unclosed := true }
      | some (field, rest) =>
        match skipPadding rest with
        | ',' :: rest =>
          if room ≠ 0 ∧ atEnd (skipPadding rest) = true then { fields := [field, .absent] }
          else
            let later := scan room rest
            { later with fields := field :: later.fields }
        | _ => { fields := [field] }

/-- The parameters of the fields, up to the first field too long to be stored. -/
def parameters : List Field → List Parameter
  | [] => []
  | field :: fields =>
    match field.parameter? with
    | some p => p :: parameters fields
    | none => []

/-- The text behind a prefix such as `+COPS:`, from the first ASCII white space on; nothing if there
is none. -/
def afterPrefix (line : List Char) : List Char :=
  line.dropWhile fun c => !Text.isAsciiBlank c.toNat

/-- Splitting at a mark takes the mark out and finds the first one. -/
theorem eq_append_of_splitAt? {mark : Char} {cs front rest : List Char}
    (h : splitAt? mark cs = some (front, rest)) : cs = front ++ mark :: rest ∧ mark ∉ front := by
  induction cs generalizing front with
  | nil => simp [splitAt?] at h
  | cons c cs ih =>
    unfold splitAt? at h
    split at h
    · rename_i found
      cases h
      simp [found]
    · rename_i other
      obtain ⟨⟨later, tail⟩, hlater, heq⟩ := Option.map_eq_some_iff.1 h
      cases heq
      obtain ⟨rfl, absent⟩ := ih hlater
      exact ⟨rfl, by simp [absent, Ne.symm other]⟩

theorem length_parameters_le (fields : List Field) :
    (parameters fields).length ≤ fields.length := by
  induction fields with
  | nil => simp [parameters]
  | cons field fields ih =>
    cases h : field.parameter? <;> simp [parameters, h, ih]

/-- A scan never yields more fields than there is room for. -/
theorem length_scan_fields_le (room : Nat) (text : List Char) :
    (scan room text).fields.length ≤ room := by
  induction room generalizing text with
  | zero => simp [scan]
  | succ room ih =>
    rw [scan]
    split
    · simp
    · split
      · simp
      · split
        · split
          · rename_i trailing
            have := trailing.1
            simp only [List.length_cons, List.length_nil]
            omega
          · simpa using ih _
        · simp

end CellModem.Statement
