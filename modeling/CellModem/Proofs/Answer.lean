import CellModem.Proofs.Statement
import CellModem.Item

/-!
Where the value of an answer comes from. It is decoded from one parameter of the statement that is
left of the response once everything in front of the first white space is gone. That is what stands
behind the name and the colon if, and only if, white space comes at once.
-/

namespace CellModem

namespace Parameter

def asShort : Parameter → Except Error UInt16
  | .short v => .ok v
  | _ => .error .typeMismatch

def asText : Parameter → Except Error String
  | .text s => .ok s
  | _ => .error .typeMismatch

/-- A parameter that is there can be had as text. -/
theorem exists_textOf {p : Parameter} (h : p.isEmpty = false) : ∃ s, Query.textOf p = .ok s := by
  cases p with
  | empty => cases h
  | short v => exact ⟨_, rfl⟩
  | int v => exact ⟨_, rfl⟩
  | text s => exact ⟨s, rfl⟩

end Parameter

namespace Text

theorem trimStart_eq_self {cs : List Char} (h : ∀ c ∈ cs.head?, isBlank c = false) :
    trimStart cs = cs := by
  cases cs with
  | nil => rfl
  | cons c cs => simp [trimStart, h c rfl]

theorem not_isBlank_of_head?_trimStart {cs : List Char} {c : Char}
    (h : (trimStart cs).head? = some c) : isBlank c = false := by
  have hnot := List.head?_dropWhile_not isBlank cs
  rw [trimStart] at h
  rw [h] at hnot
  simpa using hnot

end Text

namespace Query

variable {limit : Nat}

/-- What the query makes of the parameter at the position of its value. -/
def decode (query : Query) (p : Parameter) : Except Error Value :=
  match query.decoding, query.kind with
  | .plain, .number => p.asShort.map .number
  | .plain, .text => (textOf p).map .text
  | .iccid, _ => do
    let s ← p.asText
    return .text (← Code.restoreSemiOctets Limits.text s)
  | .countryCode, _ => do
    let s ← p.asText
    return .number (← Code.NetworkCode.ofOperator s).country
  | .networkCode, _ => do
    let s ← p.asText
    return .number (← Code.NetworkCode.ofOperator s).network

theorem number_of_decode {query : Query} (hdecoding : query.decoding = .plain)
    (hkind : query.kind = .number) {p : Parameter} {value : Value}
    (h : query.decode p = .ok value) : ∃ n, value = .number n := by
  simp only [decode, hdecoding, hkind] at h
  cases p with
  | short n =>
    cases h
    exact ⟨n, rfl⟩
  | empty | int v | text s => cases h

/-- Nothing that is there fails to be a text. -/
theorem text_of_decode {query : Query} (hdecoding : query.decoding = .plain)
    (hkind : query.kind = .text) {p : Parameter} (hp : p.isEmpty = false) :
    ∃ s, query.decode p = .ok (.text s) := by
  obtain ⟨s, hs⟩ := Parameter.exists_textOf hp
  exact ⟨s, by simp [decode, hdecoding, hkind, hs, Except.map]⟩

/-- The value depends on one slot alone. -/
theorem value_eq_decode (query : Query) (slots : Slots limit) :
    query.value slots = slots.get query.index >>= query.decode := by
  unfold value decode Slots.short Slots.text
  cases hget : slots.get query.index with
  | error cause => cases query.decoding <;> cases query.kind <;> rfl
  | ok p => cases query.decoding <;> cases query.kind <;> cases p <;> rfl

theorem load_eq_ok_iff {query : Query} {response : List Char} {slots after : Slots limit} :
    query.load response slots = (.ok (), after) ↔
      ∃ statement, query.statement? response = some statement ∧
        slots.loadExactly query.count statement = (.ok (), after) := by
  unfold load
  cases query.statement? response <;> simp

/-- A response is read if its statement begins with as many parameters as are wanted, all of them
there, and they fit the slots. -/
theorem load_eq_ok_iff_presents {query : Query} {response : List Char}
    {slots after : Slots limit} :
    query.load response slots = (.ok (), after) ↔
      ∃ statement params, query.statement? response = some statement ∧
        params.length = query.count ∧ Statement.Presents statement params ∧
        slots.isAllocated = true ∧ query.count ≤ slots.capacity ∧ after = slots.fill params := by
  simp only [load_eq_ok_iff, Slots.loadExactly_eq_ok_iff]
  constructor
  · rintro ⟨statement, hstatement, hallocated, hroom, params, hlength, hpresents, hafter⟩
    exact ⟨statement, params, hstatement, hlength, hpresents, hallocated, hroom, hafter⟩
  · rintro ⟨statement, params, hstatement, hlength, hpresents, hallocated, hroom, hafter⟩
    exact ⟨statement, hstatement, hallocated, hroom, params, hlength, hpresents, hafter⟩

/-- Slots that were filled hold the value of the parameter at its position. -/
theorem value_fill {query : Query} (slots : Slots limit) {params : List Parameter}
    (hindex : query.index < params.length) :
    query.value (slots.fill params) = query.decode params[query.index] := by
  rw [value_eq_decode, Slots.get_fill hindex]
  rfl

/-- A response that has been read holds something at every position that was asked for. -/
theorem value_of_loaded {query other : Query} (hindex : query.index < other.count)
    {response : List Char} {slots after : Slots limit}
    (hload : other.load response slots = (.ok (), after)) :
    ∃ p : Parameter, p.isEmpty = false ∧ query.value after = query.decode p := by
  obtain ⟨statement, params, -, hlength, hpresents, -, -, rfl⟩ := load_eq_ok_iff_presents.mp hload
  rw [← hlength] at hindex
  exact ⟨params[query.index], hpresents.present _ (List.getElem_mem hindex),
    value_fill slots hindex⟩

/-- Slots that were filled with exactly the fields of a statement hold the value of the field at its
position. -/
theorem value_of_loadExactly {query : Query} (hindex : query.index < query.count)
    {statement : List Char} {slots after : Slots limit}
    (hload : slots.loadExactly query.count statement = (.ok (), after)) :
    ∃ field p, (Statement.scan query.count statement).fields[query.index]? = some field ∧
      field.parameter? = some p ∧ query.value after = query.decode p := by
  obtain ⟨-, -, params, hcount, hpresents, rfl⟩ := Slots.loadExactly_eq_ok_iff.mp hload
  rw [← hcount] at hindex ⊢
  obtain ⟨field, hfield, hp⟩ := hpresents.field hindex
  exact ⟨field, params[query.index], hfield, hp, value_fill slots hindex⟩

theorem answer_eq_ok_iff {query : Query} {response : List Char} {slots after : Slots limit}
    {value : Value} :
    query.answer response slots = (.ok value, after) ↔
      query.load response slots = (.ok (), after) ∧ query.value after = .ok value := by
  unfold answer
  cases hload : query.load response slots with
  | mk result next =>
    cases result with
    | error cause => simp
    | ok done =>
      constructor
      · intro h
        obtain ⟨hvalue, rfl⟩ := Prod.mk.inj h
        exact ⟨rfl, hvalue⟩
      · rintro ⟨hnext, hvalue⟩
        cases hnext
        exact Prod.ext hvalue rfl

/-- A response that opens with the name of the command and a colon has nothing in front of it to be
trimmed, or else the name is not found. -/
theorem statement?_of_prefixed {query : Query} (hprefixed : query.prefixed = true)
    {text statement : List Char}
    (h : query.statement? (query.responseName ++ ':' :: text) = some statement) :
    statement = Statement.afterPrefix (query.responseName ++ ':' :: text) := by
  simp only [statement?, hprefixed, if_true] at h
  split at h
  case isFalse => cases h
  case isTrue hname =>
    have hhead : (Text.trimStart (query.responseName ++ ':' :: text)).head? =
        (query.responseName ++ ':' :: text).head? := by
      obtain ⟨rest, hrest⟩ := List.isPrefixOf_iff_prefix.mp hname
      rw [← hrest]
      simp
    rw [← Option.some.inj h, Text.trimStart_eq_self]
    intro c hc
    exact Text.not_isBlank_of_head?_trimStart (hhead.trans hc)

end Query

namespace Statement

variable {name text : List Char}

/-- Without white space in it a name is gone as a whole, and more with it, up to the first white
space behind the colon. -/
theorem afterPrefix_of_name (hname : ∀ c ∈ name, Text.isAsciiBlank c.toNat = false) :
    afterPrefix (name ++ ':' :: text) = afterPrefix text := by
  have hgone : ∀ c ∈ name ++ [':'], (!Text.isAsciiBlank c.toNat) = true := by
    intro c hc
    rcases List.mem_append.mp hc with hmem | hcolon
    · simp [hname c hmem]
    · rw [List.mem_singleton.mp hcolon]
      rfl
  rw [List.append_cons, afterPrefix, List.dropWhile_append_of_pos hgone, afterPrefix]

theorem afterPrefix_eq_self_iff :
    afterPrefix text = text ↔ ∀ c ∈ text.head?, Text.isAsciiBlank c.toNat = true := by
  rw [afterPrefix, List.dropWhile_eq_self_iff]
  cases text <;> simp

/-- The text behind the colon is left untouched if white space comes at once, and nowhere before. -/
theorem afterPrefix_eq_iff :
    afterPrefix (name ++ ':' :: text) = text ↔
      (∀ c ∈ name, Text.isAsciiBlank c.toNat = false) ∧
        ∀ c ∈ text.head?, Text.isAsciiBlank c.toNat = true := by
  by_cases hname : ∀ c ∈ name, Text.isAsciiBlank c.toNat = false
  · rw [afterPrefix_of_name hname, afterPrefix_eq_self_iff]
    exact (and_iff_right hname).symm
  · -- what is left begins within the name, so that it is longer than the text
    have hrest : name.dropWhile (fun c => !Text.isAsciiBlank c.toNat) ≠ [] := by
      rw [Ne, List.dropWhile_eq_nil_iff]
      simpa using hname
    have hlonger : text.length < (afterPrefix (name ++ ':' :: text)).length := by
      simp [afterPrefix, List.dropWhile_append, hrest]
      omega
    constructor
    · intro h
      rw [h] at hlonger
      exact absurd hlonger (Nat.lt_irrefl _)
    · exact fun h => absurd h.1 hname

end Statement

namespace Query

variable {limit : Nat}

/-- A value comes from the statement that begins at the first white space of the response: it is
decoded from the field there at the position of the value. That statement is the text behind the
colon exactly if the text opens with white space and the name has none; otherwise what stands in
front of the white space is skipped, be it fields. -/
theorem answer_reads_behind_blank (query : Query) (slots after : Slots limit) (text : List Char)
    (value : Value) (hprefixed : query.prefixed = true) (hindex : query.index < query.count)
    (hanswer : query.answer (query.responseName ++ ':' :: text) slots = (.ok value, after)) :
    ∃ statement, statement = Statement.afterPrefix (query.responseName ++ ':' :: text) ∧
      slots.loadExactly query.count statement = (.ok (), after) ∧
      (∃ field p, (Statement.scan query.count statement).fields[query.index]? = some field ∧
        field.parameter? = some p ∧ query.decode p = .ok value) ∧
      (statement = text ↔ (∀ c ∈ query.responseName, Text.isAsciiBlank c.toNat = false) ∧
        ∀ c ∈ text.head?, Text.isAsciiBlank c.toNat = true) := by
  obtain ⟨hload, hvalue⟩ := answer_eq_ok_iff.mp hanswer
  obtain ⟨statement, hstatement, hexactly⟩ := load_eq_ok_iff.mp hload
  obtain rfl := statement?_of_prefixed hprefixed hstatement
  obtain ⟨field, p, hfield, hp, hdecode⟩ := value_of_loadExactly hindex hexactly
  exact ⟨_, rfl, hexactly, ⟨field, p, hfield, hp, hdecode.symm.trans hvalue⟩,
    Statement.afterPrefix_eq_iff⟩

/-- A response without white space behind the colon, but further on: the band is taken from the
second field, although the first one is there and is a number too. -/
theorem answer_skips_first_field :
    let query := Item.currentBand.query
    let text := "99, 20".toList
    query.answer (query.responseName ++ ':' :: text) (.full : Slots 2) =
        (.ok (.number 20), { cells := [.short 20, .empty] }) ∧
      (.full : Slots 2).loadExactly query.count text =
        (.ok (), { cells := [.short 99, .empty] }) ∧
      Statement.afterPrefix (query.responseName ++ ':' :: text) ≠ text := by
  have hanswer : Item.currentBand.query.answer (Item.currentBand.query.responseName ++
      ':' :: "99, 20".toList) (.full : Slots 2) =
        (.ok (.number 20), { cells := [.short 20, .empty] }) := by decide
  obtain ⟨statement, rfl, -, -, hbehind⟩ := answer_reads_behind_blank Item.currentBand.query .full
    { cells := [.short 20, .empty] } "99, 20".toList (.number 20) rfl (by decide) hanswer
  refine ⟨hanswer, by decide, ?_⟩
  intro heq
  exact absurd ((hbehind.mp heq).2 '9' rfl) (by decide)

end Query

end CellModem
