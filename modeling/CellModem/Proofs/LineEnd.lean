import CellModem.Proofs.Spelling

/-!
What stands behind the end of a line. A bare word goes no further than that, and a field between
marks that is closed in the line is done with. But the closing mark of a field that is still open
at the end of the line is looked for in the lines that follow: if one of them holds it, the field
takes all that stands in front of it, the line end included. With no line that holds it, reading
the line alone and reading it with what follows come to the same.
-/

namespace CellModem

namespace Statement

/-- The ways to put a field between marks. -/
inductive Enclosure where
  | quotes
  | parentheses
  deriving DecidableEq, Repr

namespace Enclosure

def opening : Enclosure → Char
  | .quotes => '"'
  | .parentheses => '('

def closing : Enclosure → Char
  | .quotes => '"'
  | .parentheses => ')'

def field : Enclosure → List Char → Field
  | .quotes => .quoted
  | .parentheses => .listed

theorem cut?_opening (marks : Enclosure) (cs : List Char) :
    Field.cut? (marks.opening :: cs) =
      (splitAt? marks.closing cs).map fun (inner, rest) => (marks.field inner, rest) := by
  cases marks <;> rfl

theorem isPadding_opening (marks : Enclosure) : isPadding marks.opening = false := by
  cases marks <;> rfl

theorem endsStatement_opening (marks : Enclosure) : endsStatement marks.opening = false := by
  cases marks <;> rfl

/-- What stands between marks is a text, however short. -/
theorem isEmpty_of_parameter? {marks : Enclosure} {inner : List Char} {p : Parameter}
    (h : (marks.field inner).parameter? = some p) : p.isEmpty = false := by
  cases marks with
  | quotes =>
    rw [Parameter.eq_text_of_ofText? h]
    rfl
  | parentheses =>
    rw [Parameter.eq_text_of_ofText? h]
    rfl

end Enclosure

theorem splitAt?_eq_none_iff {mark : Char} {cs : List Char} :
    splitAt? mark cs = none ↔ mark ∉ cs := by
  constructor
  · intro h hmem
    obtain ⟨front, rest, rfl, hfront⟩ := List.eq_append_cons_of_mem hmem
    rw [splitAt?_append hfront] at h
    cases h
  · intro h
    cases hsplit : splitAt? mark cs with
    | none => rfl
    | some found =>
      obtain ⟨front, rest⟩ := found
      obtain ⟨rfl, -⟩ := eq_append_of_splitAt? hsplit
      exact absurd (List.mem_append_right front List.mem_cons_self) h

/-- A text opens with a mark, or with a bare word. -/
theorem enclosed_or_bare (text : List Char) :
    (∃ (marks : Enclosure) (inner : List Char), text = marks.opening :: inner) ∨
      ∀ c ∈ text.head?, c ≠ '"' ∧ c ≠ '(' := by
  by_cases hquote : text.head? = some '"'
  · obtain ⟨inner, rfl⟩ := List.head?_eq_some_iff.mp hquote
    exact Or.inl ⟨.quotes, inner, rfl⟩
  · by_cases hparen : text.head? = some '('
    · obtain ⟨inner, rfl⟩ := List.head?_eq_some_iff.mp hparen
      exact Or.inl ⟨.parentheses, inner, rfl⟩
    · refine Or.inr fun c hc => ⟨?_, ?_⟩
      · rintro rfl
        exact hquote hc
      · rintro rfl
        exact hparen hc

/-- A field that cannot be cut off is open, and its closing mark is missing. -/
theorem exists_enclosure_of_cut? {text : List Char} (h : Field.cut? text = none) :
    ∃ (marks : Enclosure) (inner : List Char),
      text = marks.opening :: inner ∧ marks.closing ∉ inner := by
  obtain ⟨marks, inner, rfl⟩ | hbare := enclosed_or_bare text
  · rw [marks.cut?_opening, Option.map_eq_none_iff] at h
    exact ⟨marks, inner, rfl, splitAt?_eq_none_iff.mp h⟩
  · rw [cut?_of_bare hbare] at h
    cases h

/-- What is cut off stands in front of the rest. -/
theorem exists_append_of_cut? {text rest : List Char} {field : Field}
    (h : Field.cut? text = some (field, rest)) : ∃ front, text = front ++ rest := by
  obtain ⟨marks, inner, rfl⟩ | hbare := enclosed_or_bare text
  · rw [marks.cut?_opening] at h
    obtain ⟨⟨inside, later⟩, hsplit, heq⟩ := Option.map_eq_some_iff.mp h
    cases heq
    obtain ⟨rfl, -⟩ := eq_append_of_splitAt? hsplit
    exact ⟨marks.opening :: (inside ++ [marks.closing]), by simp⟩
  · rw [cut?_of_bare hbare] at h
    cases h
    exact ⟨text.takeWhile inWord, List.takeWhile_append_dropWhile.symm⟩

theorem exists_append_skipPadding (text : List Char) :
    ∃ front, text = front ++ skipPadding text :=
  ⟨text.takeWhile isPadding, List.takeWhile_append_dropWhile.symm⟩

/-- A search that meets a field at the front of a text has found it. -/
theorem Opens.exists_fields {text more : List Char} {field : Field} (h : Opens text field more)
    (room : Nat) : ∃ later, (scan (room + 1) text).fields = field :: later := by
  obtain ⟨hend, rest, hcut, -⟩ := h
  by_cases hcomma : ∃ later, skipPadding rest = ',' :: later
  · obtain ⟨later, hlater⟩ := hcomma
    rw [scan_of_comma hend hcut hlater]
    split
    · exact ⟨_, rfl⟩
    · exact ⟨_, rfl⟩
  · rw [not_exists] at hcomma
    exact ⟨[], by rw [scan_of_last hend hcut hcomma]⟩

section

variable {tail : List Char}

theorem skipPadding_append_of_stops (hstops : Stops tail) (text : List Char) :
    skipPadding (text ++ tail) = skipPadding text ++ tail := by
  induction text with
  | nil => exact hstops.skipPadding_eq
  | cons c cs ih =>
    cases hc : isPadding c with
    | true => simpa [skipPadding, hc] using ih
    | false => simp [skipPadding, hc]

/-- A text that is at its end stays there with the end of a statement behind it. -/
theorem atEnd_append (hend : atEnd tail = true) (text : List Char) :
    atEnd (text ++ tail) = atEnd text := by
  cases text with
  | nil => exact hend
  | cons c cs => rfl

/-- A bare word goes no further than the text it is in. -/
theorem word_append_of_stops (hstops : Stops tail) (text : List Char) :
    (text ++ tail).takeWhile inWord = text.takeWhile inWord ∧
      (text ++ tail).dropWhile inWord = text.dropWhile inWord ++ tail := by
  induction text with
  | nil =>
    cases tail with
    | nil => exact ⟨rfl, rfl⟩
    | cons c cs =>
      have hc : inWord c = false := hstops c rfl
      simp [hc]
  | cons c cs ih =>
    cases hc : inWord c with
    | true => simpa [hc] using ih
    | false => simp [hc]

/-- A field that can be cut off a text is the same with the end of a statement behind it. -/
theorem cut?_append (hstops : Stops tail) {text rest : List Char} {field : Field}
    (h : Field.cut? text = some (field, rest)) :
    Field.cut? (text ++ tail) = some (field, rest ++ tail) := by
  obtain ⟨marks, inner, rfl⟩ | hbare := enclosed_or_bare text
  · rw [marks.cut?_opening] at h
    obtain ⟨⟨inside, later⟩, hsplit, heq⟩ := Option.map_eq_some_iff.mp h
    cases heq
    obtain ⟨rfl, habsent⟩ := eq_append_of_splitAt? hsplit
    rw [List.cons_append, marks.cut?_opening, List.append_assoc, List.cons_append,
      splitAt?_append habsent]
    rfl
  · have hfront : ∀ c ∈ (text ++ tail).head?, c ≠ '"' ∧ c ≠ '(' := by
      cases text with
      | nil =>
        intro c hc
        have hword : inWord c = false := hstops c hc
        constructor <;> rintro rfl <;> cases hword
      | cons c cs => exact hbare
    obtain ⟨htake, hdrop⟩ := word_append_of_stops hstops text
    rw [cut?_of_bare hbare] at h
    cases h
    rw [cut?_of_bare hfront, htake, hdrop]

end

/-- What a search can come upon in a text with the end of a statement behind it. What that end is
shows only at an open field. -/
theorem scan_append_cases (text : List Char) :
    (∀ tail, atEnd tail = true → ∀ room, scan room (text ++ tail) = {}) ∨
    (∃ (marks : Enclosure) (front inner : List Char), text = front ++ marks.opening :: inner ∧
      (∀ c ∈ front, isPadding c = true) ∧ marks.closing ∉ inner) ∨
    (∃ field, ∀ tail, atEnd tail = true → ∀ room,
      scan (room + 1) (text ++ tail) = { fields := [field] }) ∨
    ∃ front field later, text = front ++ later ∧ ∀ tail, atEnd tail = true → ∀ room,
      scan (room + 1) (text ++ tail) =
        if room ≠ 0 ∧ atEnd (skipPadding later) = true then { fields := [field, .absent] }
        else { scan room (later ++ tail) with
          fields := field :: (scan room (later ++ tail)).fields } := by
  have hskip : ∀ tail, atEnd tail = true → ∀ cs, skipPadding (cs ++ tail) = skipPadding cs ++ tail :=
    fun tail htail => skipPadding_append_of_stops (stops_of_atEnd htail)
  cases hend : atEnd (skipPadding text) with
  | true =>
    refine Or.inl fun tail htail => scan_of_atEnd ?_
    rw [hskip tail htail, atEnd_append htail, hend]
  | false =>
    refine Or.inr ?_
    have hstart : ∀ tail, atEnd tail = true → atEnd (skipPadding (text ++ tail)) = false := by
      intro tail htail
      rw [hskip tail htail, atEnd_append htail, hend]
    obtain ⟨padding, hpadding⟩ := exists_append_skipPadding text
    cases hcut : Field.cut? (skipPadding text) with
    | none =>
      obtain ⟨marks, inner, hopen, hclosing⟩ := exists_enclosure_of_cut? hcut
      refine Or.inl ⟨marks, text.takeWhile isPadding, inner, ?_, ?_, hclosing⟩
      · rw [← hopen]
        exact List.takeWhile_append_dropWhile.symm
      · intro c hc
        exact List.mem_takeWhile_imp hc
    | some found =>
      obtain ⟨field, rest⟩ := found
      refine Or.inr ?_
      have hfield : ∀ tail, atEnd tail = true →
          Field.cut? (skipPadding (text ++ tail)) = some (field, rest ++ tail) := by
        intro tail htail
        rw [hskip tail htail]
        exact cut?_append (stops_of_atEnd htail) hcut
      by_cases hcomma : ∃ later, skipPadding rest = ',' :: later
      · obtain ⟨later, hlater⟩ := hcomma
        obtain ⟨front, hfront⟩ := exists_append_of_cut? hcut
        obtain ⟨behind, hbehind⟩ := exists_append_skipPadding rest
        refine Or.inr ⟨padding ++ front ++ behind ++ [','], field, later, ?_, ?_⟩
        · rw [List.append_assoc, List.singleton_append, ← hlater, List.append_assoc, ← hbehind,
            List.append_assoc, ← hfront, ← hpadding]
        · intro tail htail room
          have hnext : skipPadding (rest ++ tail) = ',' :: (later ++ tail) := by
            rw [hskip tail htail, hlater]
            rfl
          rw [scan_of_comma (hstart tail htail) (hfield tail htail) hnext, hskip tail htail,
            atEnd_append htail]
      · refine Or.inl ⟨field, fun tail htail => ?_⟩
        refine scan_of_last (hstart tail htail) (hfield tail htail) ?_
        rintro later hlater
        rw [hskip tail htail] at hlater
        cases hrest : skipPadding rest with
        | nil =>
          rw [hrest] at hlater
          subst hlater
          cases htail
        | cons c cs =>
          rw [hrest] at hlater
          exact hcomma ⟨cs, by rw [hrest, (List.cons.inj hlater).1]⟩

section

variable {marks : Enclosure} {front inner : List Char}
  (hpadding : ∀ c ∈ front, isPadding c = true)

include hpadding

theorem skipPadding_opening (inner : List Char) :
    skipPadding (front ++ marks.opening :: inner) = marks.opening :: inner := by
  rw [skipPadding_append hpadding, skipPadding_cons marks.isPadding_opening]

theorem scan_of_open (hclosing : marks.closing ∉ inner) (room : Nat) :
    scan (room + 1) (front ++ marks.opening :: inner) = { unclosed := true } := by
  apply scan_of_unclosed
  · rw [skipPadding_opening hpadding]
    exact marks.endsStatement_opening
  · rw [skipPadding_opening hpadding, marks.cut?_opening, splitAt?_eq_none_iff.mpr hclosing]
    rfl

theorem opens_closed (hclosing : marks.closing ∉ inner) (rest : List Char) :
    Opens (front ++ marks.opening :: (inner ++ marks.closing :: rest)) (marks.field inner)
      (skipPadding rest) := by
  rw [Opens, skipPadding_opening hpadding, marks.cut?_opening, splitAt?_append hclosing]
  exact ⟨marks.endsStatement_opening, rest, rfl, rfl⟩

end

/-- A search that comes upon no open field takes no notice of what the statement ends with. -/
theorem scan_append_of_closed {room : Nat} {text tail : List Char} (hend : atEnd tail = true)
    (h : (scan room text).unclosed = false) : scan room (text ++ tail) = scan room text := by
  induction room generalizing text with
  | zero => rfl
  | succ room ih =>
    obtain hscan | ⟨marks, front, inner, rfl, hpadding, hclosing⟩ | ⟨field, hscan⟩ |
      ⟨front, field, later, -, hscan⟩ := scan_append_cases text
    · have halone := hscan [] rfl
      rw [List.append_nil] at halone
      rw [hscan tail hend, halone]
    · rw [scan_of_open hpadding hclosing] at h
      cases h
    · have halone := hscan [] rfl
      rw [List.append_nil] at halone
      rw [hscan tail hend, halone]
    · have halone := hscan [] rfl room
      rw [List.append_nil, List.append_nil] at halone
      rw [halone] at h
      rw [hscan tail hend, halone]
      split
      case isTrue => rfl
      case isFalse hmore =>
        rw [if_neg hmore] at h
        rw [ih h]

/-- A search that comes upon an open field goes on behind the end of the statement. Unless it finds
the closing mark there, that makes no difference; if it does, the field is the next one found. -/
theorem scan_append_of_unclosed {room : Nat} {text : List Char}
    (h : (scan room text).unclosed = true) :
    ∃ (marks : Enclosure) (front inner : List Char),
      text = front ++ marks.opening :: inner ∧ marks.closing ∉ inner ∧
      (∀ tail, atEnd tail = true → marks.closing ∉ tail →
        scan room (text ++ tail) = scan room text) ∧
      ∀ part rest, atEnd (part ++ marks.closing :: rest) = true → marks.closing ∉ part →
        ∃ later, (scan room (text ++ (part ++ marks.closing :: rest))).fields =
          (scan room text).fields ++ marks.field (inner ++ part) :: later := by
  induction room generalizing text with
  | zero => cases h
  | succ room ih =>
    obtain hscan | ⟨marks, front, inner, rfl, hpadding, hclosing⟩ | ⟨field, hscan⟩ |
      ⟨front, field, later, rfl, hscan⟩ := scan_append_cases text
    · have halone := hscan [] rfl (room + 1)
      rw [List.append_nil] at halone
      rw [halone] at h
      cases h
    · refine ⟨marks, front, inner, rfl, hclosing, ?_, ?_⟩
      · intro tail _ htail
        have hboth : marks.closing ∉ inner ++ tail := by simp [hclosing, htail]
        rw [List.append_assoc, List.cons_append, scan_of_open hpadding hboth,
          scan_of_open hpadding hclosing]
      · intro part rest _ hpart
        have hboth : marks.closing ∉ inner ++ part := by simp [hclosing, hpart]
        obtain ⟨later, hlater⟩ := (opens_closed hpadding hboth rest).exists_fields room
        refine ⟨later, ?_⟩
        rw [scan_of_open hpadding hclosing, List.append_assoc, List.cons_append,
          ← List.append_assoc inner, hlater]
        rfl
    · have halone := hscan [] rfl room
      rw [List.append_nil] at halone
      rw [halone] at h
      cases h
    · have halone := hscan [] rfl room
      rw [List.append_nil, List.append_nil] at halone
      rw [halone] at h ⊢
      by_cases htrailing : room ≠ 0 ∧ atEnd (skipPadding later) = true
      · rw [if_pos htrailing] at h
        cases h
      · rw [if_neg htrailing] at h ⊢
        obtain ⟨marks, before, inner, hlater, hclosing, hwithout, hwith⟩ := ih h
        refine ⟨marks, front ++ before, inner, by rw [hlater, List.append_assoc], hclosing, ?_, ?_⟩
        · intro tail hend htail
          rw [hscan tail hend, if_neg htrailing, hwithout tail hend htail]
        · intro part rest hend hpart
          obtain ⟨fields, hfields⟩ := hwith part rest hend hpart
          exact ⟨fields, by rw [hscan _ hend, if_neg htrailing, hfields, List.cons_append]⟩

/-- Behind a field too long to be stored nothing is stored. -/
theorem parameters_append_of_lt {fields : List Field}
    (h : (parameters fields).length < fields.length) (more : List Field) :
    parameters (fields ++ more) = parameters fields := by
  induction fields with
  | nil => cases h
  | cons field fields ih =>
    cases hfield : field.parameter? with
    | none => simp [parameters, hfield]
    | some p =>
      simp only [parameters, hfield, List.length_cons, Nat.add_lt_add_iff_right] at h
      simp [parameters, hfield, ih h]

theorem parameters_append_of_eq {fields : List Field}
    (h : (parameters fields).length = fields.length) (more : List Field) :
    parameters (fields ++ more) = parameters fields ++ parameters more := by
  induction fields with
  | nil => rfl
  | cons field fields ih =>
    cases hfield : field.parameter? with
    | none => simp [parameters, hfield] at h
    | some p =>
      simp only [parameters, hfield, List.length_cons, Nat.add_right_cancel_iff] at h
      simp [parameters, hfield, ih h]

end Statement

namespace Slots

open Statement

variable {limit : Nat}

/-- Reading is incomplete if all fields in front of an open one can be stored. -/
theorem load_eq_incomplete_iff {slots : Slots limit} {max : Nat} {text : List Char} :
    (slots.load max text).1 = .error .incomplete ↔
      slots.isAllocated = true ∧
        (parameters (scan (min max slots.capacity) text).fields).length =
          (scan (min max slots.capacity) text).fields.length ∧
        (scan (min max slots.capacity) text).unclosed = true := by
  have hle := length_parameters_le (scan (min max slots.capacity) text).fields
  unfold load
  split
  case isFalse hallocated => simp [hallocated]
  case isTrue hallocated =>
    simp only [hallocated, true_and]
    split
    case isTrue hlt => simp [hlt.ne]
    case isFalse hge =>
      have heq := le_antisymm hle (not_lt.mp hge)
      cases hunclosed : (scan (min max slots.capacity) text).unclosed <;> simp [heq]

/-- Reading depends on what the search finds and on nothing else. -/
theorem load_congr_scan {slots : Slots limit} {max : Nat} {text other : List Char}
    (h : scan (min max slots.capacity) other = scan (min max slots.capacity) text) :
    slots.load max other = slots.load max text := by
  simp only [load, h]

/-- Behind a field that is too long it does not count what is found. -/
theorem load_of_stored_short {slots : Slots limit} {max : Nat} {text other : List Char}
    {more : List Field}
    (hshort : (parameters (scan (min max slots.capacity) text).fields).length <
      (scan (min max slots.capacity) text).fields.length)
    (hfields : (scan (min max slots.capacity) other).fields =
      (scan (min max slots.capacity) text).fields ++ more) :
    slots.load max other = slots.load max text := by
  have hparams := parameters_append_of_lt hshort more
  rw [← hfields] at hparams
  have hlt : (parameters (scan (min max slots.capacity) text).fields).length <
      (scan (min max slots.capacity) other).fields.length := by
    rw [hfields, List.length_append]
    omega
  simp only [load, hparams, hshort, hlt, if_true]

/-- Another text goes on where one was incomplete: it has this field behind those that are stored.
The field goes into the next slot, or it is too long and the slots stay as they are. -/
def GoesOn (slots : Slots limit) (max : Nat) (text other : List Char) (field : Field) : Prop :=
  match field.parameter? with
  | none => slots.load max other = (.error .storageExhausted, (slots.load max text).2)
  | some p => ∃ index, (slots.load max text).2.get index = .ok .empty ∧
      (slots.load max other).2.cells.take index = (slots.load max text).2.cells.take index ∧
      (slots.load max other).2.get index = .ok p

section

variable {slots : Slots limit} {max : Nat} {text other : List Char}
  (h : (slots.load max text).1 = .error .incomplete)

include h

theorem goesOn_of_fields {field : Field} {later : List Field}
    (hfields : (scan (min max slots.capacity) other).fields =
      (scan (min max slots.capacity) text).fields ++ field :: later) :
    slots.GoesOn max text other field := by
  obtain ⟨hallocated, hstored, hunclosed⟩ := load_eq_incomplete_iff.mp h
  have hparams := parameters_append_of_eq hstored (field :: later)
  rw [← hfields] at hparams
  unfold GoesOn
  split
  case h_1 hlong =>
    rw [parameters, hlong, List.append_nil] at hparams
    have hlt : (parameters (scan (min max slots.capacity) text).fields).length <
        (scan (min max slots.capacity) other).fields.length := by
      rw [hstored, hfields, List.length_append, List.length_cons]
      omega
    simp only [load, hallocated, if_true, hparams, hlt]
  case h_2 p hfield =>
    simp only [parameters, hfield] at hparams
    have hroom := length_fields_lt_of_unclosed hunclosed
    simp only [load, hallocated, if_true, hparams]
    refine ⟨(parameters (scan (min max slots.capacity) text).fields).length, ?_, ?_, ?_⟩
    · simp only [get, fill]
      rw [List.getElem?_append_right (le_refl _), Nat.sub_self, List.getElem?_replicate,
        if_pos (by omega)]
    · simp only [fill]
      rw [List.append_assoc, List.take_left, List.take_left]
    · rw [get_fill (by simp)]
      simp

/-- A text that goes on with a field between marks does not come to the same. -/
theorem GoesOn.load_ne {marks : Enclosure} {inner : List Char}
    (hgoes : slots.GoesOn max text other (marks.field inner)) :
    slots.load max other ≠ slots.load max text := by
  intro hsame
  unfold GoesOn at hgoes
  rw [hsame] at hgoes
  split at hgoes
  case h_1 =>
    rw [hgoes] at h
    cases h
  case h_2 p hfield =>
    obtain ⟨index, hempty, -, hp⟩ := hgoes
    have htext := Enclosure.isEmpty_of_parameter? hfield
    rw [← Except.ok.inj (hempty.symm.trans hp)] at htext
    cases htext

end

/-- Reading goes on behind the end of the line at one point only. A line read to its end, or to a
field that is too long, has the same result and leaves the same slots with any text behind it. A
line that is incomplete ends in an open field, and it has the same result and leaves the same slots
if and only if the closing mark of that field is missing in the text behind it too. If it is there,
the field takes the rest of the line, the line feed and all that stands in front of the mark. -/
theorem load_line (slots : Slots limit) (max : Nat) (l r : List Char) :
    ((slots.load max l).1 ≠ .error .incomplete →
      slots.load max (l ++ '\n' :: r) = slots.load max l) ∧
    ((slots.load max l).1 = .error .incomplete →
      ∃ (marks : Enclosure) (front inner : List Char),
        l = front ++ marks.opening :: inner ∧ marks.closing ∉ inner ∧
        (slots.load max (l ++ '\n' :: r) = slots.load max l ↔ marks.closing ∉ r) ∧
        ∀ part rest, r = part ++ marks.closing :: rest → marks.closing ∉ part →
          slots.GoesOn max l (l ++ '\n' :: r) (marks.field (inner ++ '\n' :: part))) := by
  have hend : ∀ cs, atEnd ('\n' :: cs) = true := fun _ => rfl
  have hfeed : ∀ marks : Enclosure, marks.closing ≠ '\n' := by
    intro marks
    cases marks <;> decide
  constructor
  · intro hcomplete
    cases hunclosed : (scan (min max slots.capacity) l).unclosed with
    | false => exact load_congr_scan (scan_append_of_closed (hend r) hunclosed)
    | true =>
      cases hallocated : slots.isAllocated with
      | false => simp only [load, hallocated, Bool.false_eq_true, if_false]
      | true =>
        -- the open field stands behind one that is too long, which is what is reported
        have hshort := lt_of_le_of_ne (length_parameters_le (scan (min max slots.capacity) l).fields)
          fun hstored => hcomplete (load_eq_incomplete_iff.mpr ⟨hallocated, hstored, hunclosed⟩)
        obtain ⟨marks, front, inner, -, -, hwithout, hwith⟩ := scan_append_of_unclosed hunclosed
        by_cases hmark : marks.closing ∈ r
        · obtain ⟨part, rest, rfl, hpart⟩ := List.eq_append_cons_of_mem hmark
          obtain ⟨later, hfields⟩ := hwith ('\n' :: part) rest (hend _) (by simp [hfeed, hpart])
          exact load_of_stored_short hshort hfields
        · exact load_congr_scan (hwithout ('\n' :: r) (hend r) (by simp [hfeed, hmark]))
  · intro hincomplete
    have hunclosed := (load_eq_incomplete_iff.mp hincomplete).2.2
    obtain ⟨marks, front, inner, hl, hclosing, hwithout, hwith⟩ := scan_append_of_unclosed hunclosed
    have hgoes : ∀ part rest, r = part ++ marks.closing :: rest → marks.closing ∉ part →
        slots.GoesOn max l (l ++ '\n' :: r) (marks.field (inner ++ '\n' :: part)) := by
      rintro part rest rfl hpart
      obtain ⟨later, hfields⟩ := hwith ('\n' :: part) rest (hend _) (by simp [hfeed, hpart])
      exact goesOn_of_fields hincomplete hfields
    refine ⟨marks, front, inner, hl, hclosing, ⟨fun hsame hmark => ?_, fun habsent => ?_⟩, hgoes⟩
    · obtain ⟨part, rest, hr, hpart⟩ := List.eq_append_cons_of_mem hmark
      exact (hgoes part rest hr hpart).load_ne hincomplete hsame
    · exact load_congr_scan (hwithout ('\n' :: r) (hend r) (by simp [hfeed, habsent]))

/-- The first line breaks off behind `"a`, and the second one holds the mark. -/
theorem load_over_line_end :
    let slots : Slots 4 := full
    slots.load 1 "\"a".toList = (.error .incomplete, full) ∧
      slots.load 1 ("\"a".toList ++ '\n' :: "b\"".toList) =
        (.ok 1, full.fill [.text "a\nb"]) ∧
      slots.load 1 ("\"a".toList ++ '\n' :: "b\"".toList) ≠ slots.load 1 "\"a".toList := by
  intro slots
  have halone : slots.load 1 "\"a".toList = (.error .incomplete, full) := by decide
  obtain ⟨marks, front, inner, hl, -, hiff, -⟩ :=
    (load_line slots 1 "\"a".toList "b\"".toList).2 (by rw [halone])
  have hmarks : marks = .quotes := by
    have hmem : marks.opening ∈ "\"a".toList := by rw [hl]; simp
    cases marks with
    | quotes => rfl
    | parentheses => exact absurd hmem (by decide)
  subst hmarks
  refine ⟨halone, by decide, fun hsame => ?_⟩
  exact hiff.mp hsame (by decide)

end Slots

end CellModem
