import CellModem.Proofs.LineEnd
import CellModem.Statement.Walk

/-!
A walk over the bytes of a statement comes to what reading its characters comes to. The bytes of a
character of several bytes are all above the ASCII range, so every byte the walk looks for is a
character of its own: wherever the walk stands, and wherever it cuts, a character begins or the text
ends.
-/

namespace CellModem

namespace Octets

/-- Kinds of bytes and of characters that go together: the bytes of a character are of the kind that
the character is of. -/
def Reads (kind : UInt8 → Bool) (char : Char → Bool) : Prop :=
  ∀ c, ∀ b ∈ String.utf8EncodeChar c, kind b = char c

/-- A byte in the ASCII range stands for the character with its code only. -/
theorem reads_eq {mark : Char} (hascii : mark.toNat < 128) :
    Reads (· == mark.toUInt8) (· == mark) := by
  intro c b hb
  have hmark : mark.toUInt8.toNat = mark.toNat := by
    have hvalue : mark.toUInt8.toNat = mark.toNat % 256 := UInt32.toNat_toUInt8 mark.val
    omega
  rw [Bool.eq_iff_iff, beq_iff_eq, beq_iff_eq, ← UInt8.toNat_inj, ← Char.toNat_inj, hmark]
  have hcases := toNat_of_mem_utf8EncodeChar hb
  omega

theorem Reads.or {kind other : UInt8 → Bool} {char otherChar : Char → Bool}
    (h : Reads kind char) (hother : Reads other otherChar) :
    Reads (fun b => kind b || other b) (fun c => char c || otherChar c) := by
  intro c b hb
  simp only [h c b hb, hother c b hb]

theorem reads_endsStatement : Reads endsStatement Statement.endsStatement :=
  (((reads_eq (by decide)).or (reads_eq (by decide))).or (reads_eq (by decide))).or
    (reads_eq (by decide))

theorem reads_isPadding : Reads isPadding Statement.isPadding :=
  (reads_eq (by decide)).or (reads_eq (by decide))

/-- What ends a bare word. -/
theorem reads_wordEnd :
    Reads (fun b => b == ','.toUInt8 || endsStatement b) (fun c => !Statement.inWord c) := by
  intro c b hb
  change _ = !(!(c == ',' || Statement.endsStatement c))
  rw [Bool.not_not]
  exact ((reads_eq (by decide)).or reads_endsStatement) c b hb

theorem reads_isDecimalDigit : Reads isDecimalDigit Numeral.isDecimalDigit := by
  intro c b hb
  have hcases := toNat_of_mem_utf8EncodeChar hb
  have hzero : '0'.toUInt8.toNat = 48 := rfl
  have hnine : '9'.toUInt8.toNat = 57 := rfl
  have hdigit : Numeral.isDecimalDigit c = true ↔ 48 ≤ c.toNat ∧ c.toNat ≤ 57 := by
    refine ⟨Numeral.toNat_of_isDecimalDigit, fun h => ?_⟩
    have hrange : '0' ≤ c ∧ c ≤ '9' := h
    simp only [Numeral.isDecimalDigit, Numeral.decimalDigit?, hrange, and_self, if_true,
      Option.isSome_some]
  rw [Bool.eq_iff_iff, hdigit, isDecimalDigit, Bool.and_eq_true, decide_eq_true_eq,
    decide_eq_true_eq, UInt8.le_iff_toNat_le, UInt8.le_iff_toNat_le, hzero, hnine]
  omega

/-- The first byte of a text is one of its first character. -/
theorem exists_head?_ofText (c : Char) (cs : List Char) :
    ∃ b ∈ String.utf8EncodeChar c, (ofText (String.ofList (c :: cs))).head? = some b := by
  rw [ofText_ofList, List.flatMap_cons]
  cases hbytes : String.utf8EncodeChar c with
  | nil => exact absurd hbytes String.utf8EncodeChar_ne_nil
  | cons b bytes => exact ⟨b, List.mem_cons_self, rfl⟩

section

variable {kind : UInt8 → Bool} {char : Char → Bool} (h : Reads kind char)

include h

theorem Reads.all (cs : List Char) : (ofText (String.ofList cs)).all kind = cs.all char := by
  rw [ofText_ofList, List.all_flatMap]
  congr 1
  funext c
  cases hbytes : String.utf8EncodeChar c with
  | nil => exact absurd hbytes String.utf8EncodeChar_ne_nil
  | cons b bytes =>
    have hall : ∀ other ∈ b :: bytes, kind other = char c := fun other hother =>
      h c other (by rw [hbytes]; exact hother)
    rw [Bool.eq_iff_iff, List.all_eq_true]
    refine ⟨fun hkind => ?_, fun hchar other hother => (hall other hother).trans hchar⟩
    rw [← hall b List.mem_cons_self]
    exact hkind b List.mem_cons_self

/-- The first bytes of the kind are those of the first characters of it. -/
theorem Reads.takeWhile_ofText (cs : List Char) :
    (ofText (String.ofList cs)).takeWhile kind = ofText (String.ofList (cs.takeWhile char)) := by
  simp only [ofText_ofList]
  induction cs with
  | nil => rfl
  | cons c cs ih =>
    rw [List.flatMap_cons]
    cases hc : char c with
    | true =>
      rw [List.takeWhile_cons_of_pos hc, List.flatMap_cons, ← ih]
      exact List.takeWhile_append_of_pos fun b hb => (h c b hb).trans hc
    | false =>
      rw [List.takeWhile_cons_of_neg (Bool.eq_false_iff.mp hc), List.flatMap_nil]
      cases hbytes : String.utf8EncodeChar c with
      | nil => exact absurd hbytes String.utf8EncodeChar_ne_nil
      | cons b bytes =>
        have hb := h c b (by rw [hbytes]; exact List.mem_cons_self)
        rw [List.cons_append, List.takeWhile_cons_of_neg]
        rw [hb, hc]
        exact Bool.false_ne_true

/-- No byte is of the kind if no character is. -/
theorem Reads.findIdx?_eq_none {cs : List Char} (hcs : ∀ c ∈ cs, char c = false) :
    (ofText (String.ofList cs)).findIdx? kind = none := by
  rw [List.findIdx?_eq_none_iff, ofText_ofList]
  intro b hb
  obtain ⟨c, hc, hmem⟩ := List.mem_flatMap.mp hb
  exact (h c b hmem).trans (hcs c hc)

end

/-- The padding that is skipped is all that there is. -/
theorem skipPadding_eq (bytes : Octets) (position : Nat) :
    skipPadding bytes position =
      position + ((bytes.drop position).takeWhile isPadding).length := by
  fun_induction skipPadding bytes position with
  | case1 position hlt hpadding ih =>
    rw [ih, List.drop_eq_getElem_cons hlt, List.takeWhile_cons_of_pos hpadding, List.length_cons]
    omega
  | case2 position hlt hpadding =>
    rw [List.drop_eq_getElem_cons hlt, List.takeWhile_cons_of_neg hpadding]
    rfl
  | case3 position hge =>
    rw [List.drop_eq_nil_of_le (Nat.le_of_not_lt hge)]
    rfl

end Octets

namespace Text.Behind

variable {text : String} {position : Nat} {rest : List Char}

/-- The byte at the position is the first one of the characters behind it. -/
theorem getElem?_eq (h : Behind text position rest) :
    (Octets.ofText text)[position]? = (Octets.ofText (String.ofList rest)).head? := by
  rw [← h.drop_ofText, List.head?_drop]

theorem getElem?_nil (h : Behind text position []) : (Octets.ofText text)[position]? = none := by
  rw [h.getElem?_eq]
  rfl

theorem exists_getElem? {c : Char} {cs : List Char} (h : Behind text position (c :: cs)) :
    ∃ b ∈ String.utf8EncodeChar c, (Octets.ofText text)[position]? = some b := by
  rw [h.getElem?_eq]
  exact Octets.exists_head?_ofText c cs

/-- The byte of an ASCII character is found where that character stands, and nowhere else. -/
theorem getElem?_eq_iff (h : Behind text position rest) {mark : Char}
    (hascii : mark.toNat < 128) :
    (Octets.ofText text)[position]? = some mark.toUInt8 ↔ rest.head? = some mark := by
  cases rest with
  | nil => simp [h.getElem?_nil]
  | cons c cs =>
    obtain ⟨b, hb, hbyte⟩ := h.exists_getElem?
    have hmark : (b == mark.toUInt8) = (c == mark) := Octets.reads_eq hascii c b hb
    rw [hbyte, List.head?_cons, Option.some_inj, Option.some_inj, ← beq_iff_eq, hmark, beq_iff_eq]

/-- A character in the ASCII range is one byte. -/
theorem succ {c : Char} {cs : List Char} (h : Behind text position (c :: cs))
    (hascii : c.toNat < 128) : Behind text (position + 1) cs := by
  have hsize : c.utf8Size = 1 := Octets.utf8Size_of_ascii hascii
  have hnext : Behind text (position + (String.ofList [c]).utf8ByteSize) cs := h.advance
  simpa [hsize] using hnext

/-- What is searched for among the bytes is found where the first such character stands. -/
theorem position?_eq_some {front : List Char} {c : Char} {cs : List Char}
    (h : Behind text position (front ++ c :: cs)) {kind : UInt8 → Bool} {char : Char → Bool}
    (hreads : Octets.Reads kind char) (hfront : ∀ other ∈ front, char other = false)
    (hc : char c = true) :
    Octets.position? kind (Octets.ofText text) position =
      some (position + (String.ofList front).utf8ByteSize) := by
  obtain ⟨b, hb, hhead⟩ := Octets.exists_head?_ofText c cs
  obtain ⟨bytes, hbytes⟩ := List.head?_eq_some_iff.mp hhead
  have hle : position ≤ (Octets.ofText text).length := by
    rw [Octets.length_ofText]
    exact h.isBoundary.le_size
  rw [Octets.position?, if_pos hle, h.drop_ofText, String.ofList_append, Octets.ofText_append,
    List.findIdx?_append, hreads.findIdx?_eq_none hfront, hbytes, List.findIdx?_cons,
    hreads c b hb, if_pos hc, Octets.length_ofText]
  simp

theorem position?_eq_none (h : Behind text position rest) {kind : UInt8 → Bool}
    {char : Char → Bool} (hreads : Octets.Reads kind char) (hrest : ∀ c ∈ rest, char c = false) :
    Octets.position? kind (Octets.ofText text) position = none := by
  rw [Octets.position?, h.drop_ofText, hreads.findIdx?_eq_none hrest, Option.map_none, ite_self]

/-- Behind the padding stands what stands behind the padding characters. -/
theorem skipPadding (h : Behind text position rest) :
    Behind text (Octets.skipPadding (Octets.ofText text) position)
      (Statement.skipPadding rest) := by
  rw [Octets.skipPadding_eq, h.drop_ofText, Octets.reads_isPadding.takeWhile_ofText,
    Octets.length_ofText]
  have hsplit : rest.takeWhile Statement.isPadding ++ Statement.skipPadding rest = rest :=
    List.takeWhile_append_dropWhile
  rw [← hsplit] at h
  exact h.advance

theorem atEnd_eq (h : Behind text position rest) :
    Octets.atEnd (Octets.ofText text) position =
      Statement.atEnd (Statement.skipPadding rest) := by
  have hnext := h.skipPadding
  unfold Octets.atEnd
  cases hrest : Statement.skipPadding rest with
  | nil =>
    rw [hrest] at hnext
    rw [hnext.getElem?_nil]
    rfl
  | cons c cs =>
    rw [hrest] at hnext
    obtain ⟨b, hb, hbyte⟩ := hnext.exists_getElem?
    rw [hbyte]
    exact Octets.reads_endsStatement c b hb

end Text.Behind

open Statement

/-- A field that can be cut off is the first one found. -/
theorem Statement.exists_scan_eq {text rest : List Char} {field : Field}
    (hend : atEnd (skipPadding text) = false)
    (hcut : Field.cut? (skipPadding text) = some (field, rest)) (room : Nat) :
    ∃ later : Scan,
      scan (room + 1) text = { later with fields := field :: later.fields } := by
  by_cases hcomma : ∃ later, skipPadding rest = ',' :: later
  · obtain ⟨later, hlater⟩ := hcomma
    rw [scan_of_comma hend hcut hlater]
    split
    case isTrue => exact ⟨{ fields := [.absent] }, rfl⟩
    case isFalse => exact ⟨scan room later, rfl⟩
  · rw [not_exists] at hcomma
    exact ⟨{}, scan_of_last hend hcut hcomma room⟩

/-- The text that is cut out for a field: without quotation marks, but with parentheses. -/
def Statement.Field.cutOut : Field → List Char
  | .absent => []
  | .quoted inner => inner
  | .listed inner => '(' :: (inner ++ [')'])
  | .bare word => word

def Statement.Field.isQuoted : Field → Bool
  | .quoted _ => true
  | _ => false

namespace Token

/-- The cut is one that can be made. -/
structure Sound (token : Token) (text : String) : Prop where
  start_le_stop : token.start ≤ token.stop
  stop_le_size : token.stop ≤ text.utf8ByteSize
  start_boundary : Text.IsBoundary text token.start
  stop_boundary : Text.IsBoundary text token.stop

/-- What is cut out is the field, and `rest` stands behind it. -/
structure Spells (token : Token) (text : String) (field : Field) (rest : List Char) : Prop where
  cut?_eq : Text.cut? text token.start token.stop = some (String.ofList field.cutOut)
  quoted_eq : token.quoted = field.isQuoted
  behind : Text.Behind text token.next rest

theorem Spells.sound {token : Token} {text : String} {field : Field} {rest : List Char}
    (h : token.Spells text field rest) : token.Sound text := by
  have hcut := h.cut?_eq
  unfold Text.cut? at hcut
  split at hcut
  case isTrue hchecks =>
    obtain ⟨horder, hstart, hstop⟩ := hchecks
    exact ⟨horder, hstop.le_size, hstart, hstop⟩
  case isFalse => cases hcut

/-- A field between marks, from the opening mark to the closing one. -/
def between (marks : Enclosure) (start close : Nat) : Token :=
  match marks with
  | .quotes => { start := start + 1, stop := close, next := close + 1, quoted := true }
  | .parentheses => { start, stop := close + 1, next := close + 1 }

section

variable {text : String} {position : Nat} {cs rest : List Char} {field : Field}

theorem look_of_atEnd (h : Text.Behind text position cs) (hend : Statement.atEnd cs = true) :
    look (Octets.ofText text) position = .ended := by
  unfold look
  cases cs with
  | nil =>
    rw [h.getElem?_nil]
  | cons c cs =>
    obtain ⟨b, hb, hbyte⟩ := h.exists_getElem?
    have hends : Octets.endsStatement b = true := (Octets.reads_endsStatement c b hb).trans hend
    rw [hbyte]
    simp only [hends, if_true]

theorem behind_opening {marks : Enclosure} {inner : List Char}
    (h : Text.Behind text position (marks.opening :: inner)) :
    Text.Behind text (position + 1) inner :=
  h.succ (by cases marks <;> decide)

theorem look_opening {marks : Enclosure} {inner : List Char}
    (h : Text.Behind text position (marks.opening :: inner)) :
    look (Octets.ofText text) position =
      match Octets.position? (· == marks.closing.toUInt8) (Octets.ofText text) (position + 1) with
      | none => .unclosed
      | some close => .token (between marks position close) := by
  have hascii : marks.opening.toNat < 128 := by cases marks <;> decide
  unfold look
  rw [(h.getElem?_eq_iff hascii).mpr rfl]
  cases marks <;> rfl

/-- No closing mark is found if there is none. -/
theorem look_of_unclosed (h : Text.Behind text position cs) (hcut : Field.cut? cs = none) :
    look (Octets.ofText text) position = .unclosed := by
  obtain ⟨marks, inner, rfl, hclosing⟩ := exists_enclosure_of_cut? hcut
  have hascii : marks.closing.toNat < 128 := by cases marks <;> decide
  rw [look_opening h, (behind_opening h).position?_eq_none (Octets.reads_eq hascii)]
  intro c hc
  rw [beq_eq_false_iff_ne]
  rintro rfl
  exact hclosing hc

theorem spells_between {marks : Enclosure} {inner : List Char}
    (h : Text.Behind text position (marks.opening :: (inner ++ marks.closing :: rest))) :
    (between marks position (position + 1 + (String.ofList inner).utf8ByteSize)).Spells text
      (marks.field inner) rest := by
  have hinner := behind_opening h
  have hrest := hinner.advance.succ (by cases marks <;> decide)
  cases marks with
  | quotes => exact ⟨hinner.cut?, rfl, hrest⟩
  | parentheses =>
    have hmarks : '('.utf8Size = 1 ∧ ')'.utf8Size = 1 := by decide
    have hsize : position + (String.ofList ('(' :: (inner ++ [')']))).utf8ByteSize =
        position + 1 + (String.ofList inner).utf8ByteSize + 1 := by
      simp only [String.ofList_cons, String.ofList_nil, Text.size_append, hmarks,
        String.utf8ByteSize_append, String.utf8ByteSize_singleton, String.utf8ByteSize_empty]
      omega
    have happend : Enclosure.parentheses.opening ::
        (inner ++ Enclosure.parentheses.closing :: rest) = ('(' :: (inner ++ [')'])) ++ rest := by
      rw [List.cons_append, List.append_assoc]
      rfl
    rw [happend] at h
    have hcut := h.cut?
    rw [hsize] at hcut
    exact ⟨hcut, rfl, hrest⟩

/-- Where a bare word ends. -/
theorem position?_wordEnd (h : Text.Behind text position cs) :
    (Octets.position? (fun b => b == ','.toUInt8 || Octets.endsStatement b) (Octets.ofText text)
      position).getD (Octets.ofText text).length =
        position + (String.ofList (cs.takeWhile inWord)).utf8ByteSize := by
  have hinside : ∀ c ∈ cs.takeWhile inWord, (!inWord c) = false := by
    intro c hc
    rw [List.mem_takeWhile_imp hc]
    rfl
  have hsplit : cs.takeWhile inWord ++ cs.dropWhile inWord = cs := List.takeWhile_append_dropWhile
  cases hrest : cs.dropWhile inWord with
  | nil =>
    rw [hrest, List.append_nil] at hsplit
    rw [hsplit] at hinside ⊢
    rw [h.position?_eq_none Octets.reads_wordEnd hinside, Option.getD_none, Octets.length_ofText,
      h.size_add]
  | cons c later =>
    have hc : (!inWord c) = true := by
      have hhead := List.head?_dropWhile_not inWord cs
      rw [hrest] at hhead
      simpa using hhead
    rw [← hsplit, hrest] at h
    rw [h.position?_eq_some Octets.reads_wordEnd hinside hc, Option.getD_some]

/-- A field that can be cut off the characters is found among the bytes. -/
theorem exists_look_of_cut? (h : Text.Behind text position cs)
    (hend : Statement.atEnd cs = false) (hcut : Field.cut? cs = some (field, rest)) :
    ∃ token, look (Octets.ofText text) position = .token token ∧ token.Spells text field rest := by
  obtain ⟨marks, inner, rfl⟩ | hbare := enclosed_or_bare cs
  · rw [marks.cut?_opening] at hcut
    obtain ⟨⟨inside, later⟩, hsplit, heq⟩ := Option.map_eq_some_iff.mp hcut
    cases heq
    obtain ⟨rfl, hclosing⟩ := eq_append_of_splitAt? hsplit
    have hascii : marks.closing.toNat < 128 := by cases marks <;> decide
    refine ⟨_, ?_, spells_between h⟩
    rw [look_opening h, (behind_opening h).position?_eq_some (Octets.reads_eq hascii) ?_
      (beq_self_eq_true _)]
    intro c hc
    rw [beq_eq_false_iff_ne]
    rintro rfl
    exact hclosing hc
  · rw [cut?_of_bare hbare] at hcut
    obtain ⟨hfield, rfl⟩ := Prod.mk.inj (Option.some.inj hcut)
    have hword : field.cutOut = cs.takeWhile inWord ∧ field.isQuoted = false := by
      subst hfield
      cases hempty : cs.takeWhile inWord <;> exact ⟨rfl, rfl⟩
    have hsplit : cs.takeWhile inWord ++ cs.dropWhile inWord = cs :=
      List.takeWhile_append_dropWhile
    have hpassed := h
    rw [← hsplit] at hpassed
    refine ⟨{ start := position
              stop := position + (String.ofList (cs.takeWhile inWord)).utf8ByteSize
              next := position + (String.ofList (cs.takeWhile inWord)).utf8ByteSize },
      ?_, ?_, hword.2.symm, hpassed.advance⟩
    · cases cs with
      | nil => cases hend
      | cons c cs =>
        obtain ⟨hquote, hparen⟩ := hbare c rfl
        obtain ⟨b, hb, hbyte⟩ := h.exists_getElem?
        have hends : Octets.endsStatement b = false :=
          (Octets.reads_endsStatement c b hb).trans hend
        have hquoted : (b == '"'.toUInt8) = false :=
          (Octets.reads_eq (by decide) c b hb).trans (beq_eq_false_iff_ne.mpr hquote)
        have hlisted : (b == '('.toUInt8) = false :=
          (Octets.reads_eq (by decide) c b hb).trans (beq_eq_false_iff_ne.mpr hparen)
        unfold look
        rw [hbyte]
        simp only [hends, hquoted, hlisted, Bool.false_eq_true, if_false, position?_wordEnd h]
    · rw [hword.1]
      exact hpassed.cut?

end

end Token

namespace Slots

variable {limit : Nat} {slots : Slots limit} {params : List Parameter}

theorem capacity_fill (h : params.length ≤ slots.capacity) :
    (slots.fill params).capacity = slots.capacity := by
  rw [capacity, fill, List.length_append, List.length_replicate]
  omega

/-- One more parameter goes into the slot behind those that are filled. -/
theorem put_fill (h : params.length < slots.capacity) (p : Parameter) :
    (slots.fill params).put params.length p = .ok (slots.fill (params ++ [p])) := by
  have hrest : slots.capacity - params.length = slots.capacity - (params.length + 1) + 1 := by omega
  rw [put, capacity_fill h.le, if_pos h]
  simp only [fill, List.set_append_right _ _ (le_refl _), Nat.sub_self, hrest,
    List.replicate_succ, List.set_cons_zero, List.length_append, List.length_singleton,
    List.append_assoc, List.singleton_append]

/-- Nothing changes when the slot behind them stays empty. -/
theorem fill_append_empty (h : params.length < slots.capacity) :
    slots.fill (params ++ [.empty]) = slots.fill params := by
  have hrest : slots.capacity - params.length = slots.capacity - (params.length + 1) + 1 := by omega
  simp only [fill, hrest, List.replicate_succ, List.length_append, List.length_singleton,
    List.append_assoc, List.singleton_append]

theorem fill_nil : slots.fill [] = slots.clearAll := by
  simp [fill, clearAll, capacity]

theorem putText_fill (h : params.length < slots.capacity) (s : String) :
    (slots.fill params).putText params.length s =
      match Parameter.ofText? s with
      | some p => .ok (slots.fill (params ++ [p]))
      | none => .error .storageExhausted := by
  rw [putText, capacity_fill h.le, if_pos h]
  cases Parameter.ofText? s with
  | none => rfl
  | some p => exact put_fill h p

/-- What is put for a text without quotation marks. -/
theorem store_word (h : params.length < slots.capacity) {word : List Char} (hword : word ≠ []) :
    (slots.fill params).store params.length word false =
      match wordParameter? word with
      | some p => .ok (slots.fill (params ++ [p]))
      | none => .error .storageExhausted := by
  have hempty : word.isEmpty = false := List.isEmpty_eq_false_iff.mpr hword
  simp only [store, wordParameter?, hempty, Bool.false_eq_true, if_false,
    Octets.reads_isDecimalDigit.all, putText_fill h]
  cases hdigits : word.all Numeral.isDecimalDigit with
  | false =>
    rw [List.all_eq_false] at hdigits
    obtain ⟨c, hc, hdigit⟩ := hdigits
    rw [Numeral.decimalValue?_eq_none ⟨c, hc, Bool.eq_false_iff.mpr hdigit⟩]
    rfl
  | true =>
    cases Numeral.decimalValue? word with
    | none => rfl
    | some v =>
      simp only [if_true]
      split
      case isTrue => exact put_fill h _
      case isFalse =>
        split
        case isTrue => exact put_fill h _
        case isFalse => rfl

/-- What is put for the text of a field is what the field stands for. -/
theorem store_cutOut (h : params.length < slots.capacity) (field : Field) :
    (slots.fill params).store params.length (Text.trimEnd field.cutOut) field.isQuoted =
      match field.parameter? with
      | some p => .ok (slots.fill (params ++ [p]))
      | none => .error .storageExhausted := by
  cases field with
  | absent => exact congrArg Except.ok (fill_append_empty h).symm
  | quoted inner => exact putText_fill h _
  | listed inner =>
    have hlast : ∀ c ∈ ('(' :: (inner ++ [')'])).getLast?, Text.isBlank c = false := by
      intro c hc
      rw [← List.cons_append, List.getLast?_concat, Option.mem_some_iff] at hc
      subst hc
      rfl
    have htext : wordParameter? ('(' :: (inner ++ [')'])) =
        Parameter.ofText? (String.ofList ('(' :: (inner ++ [')']))) := by
      rw [wordParameter?, Numeral.decimalValue?_eq_none ⟨'(', List.mem_cons_self, rfl⟩]
    change (slots.fill params).store params.length (Text.trimEnd ('(' :: (inner ++ [')'])))
      false = _
    rw [Text.trimEnd_eq_self hlast, store_word h (List.cons_ne_nil _ _), htext, Field.parameter?]
  | bare word =>
    change (slots.fill params).store params.length (Text.trimEnd word) false = _
    rw [Field.parameter?]
    cases hword : Text.trimEnd word with
    | nil => exact congrArg Except.ok (fill_append_empty h).symm
    | cons c cs => exact store_word h (List.cons_ne_nil c cs)

end Slots

namespace Walk

variable {limit : Nat} {slots : Slots limit} {text : String} {max : Nat} {walk : Walk limit}
  {rest : List Char} {params : List Parameter}

/-- The walk has stored these parameters, and the characters `rest` are still to be read. -/
structure At (slots : Slots limit) (text : String) (walk : Walk limit) (rest : List Char)
    (params : List Parameter) : Prop where
  behind : Text.Behind text walk.position rest
  index_eq : walk.index = params.length
  slots_eq : walk.slots = slots.fill params

theorem At.sight_behind (h : At slots text walk rest params) :
    Text.Behind text (Octets.skipPadding (Octets.ofText text) walk.position) (skipPadding rest) :=
  h.behind.skipPadding

theorem At.turn?_of_atEnd (h : At slots text walk rest params)
    (hend : atEnd (skipPadding rest) = true) :
    walk.turn? text max = some (.over (.ok params.length) (slots.fill params)) := by
  rw [turn?, sight, Token.look_of_atEnd h.sight_behind hend, h.index_eq, h.slots_eq]

theorem At.turn?_of_unclosed (h : At slots text walk rest params)
    (hcut : Field.cut? (skipPadding rest) = none) :
    walk.turn? text max = some (.over (.error .incomplete) (slots.fill params)) := by
  rw [turn?, sight, Token.look_of_unclosed h.sight_behind hcut, h.slots_eq]

section

variable {field : Field} {later : List Char}

/-- A field is stored in the next slot, if it can be stored. -/
theorem At.exists_turn? (h : At slots text walk rest params) (max : Nat)
    (hroom : params.length < slots.capacity) (hend : atEnd (skipPadding rest) = false)
    (hcut : Field.cut? (skipPadding rest) = some (field, later)) :
    ∃ next, Text.Behind text next later ∧
      walk.turn? text max =
        match field.parameter? with
        | none => some (.over (.error .storageExhausted) (slots.fill params))
        | some p =>
          some (walk.advance (Octets.ofText text) max next (slots.fill (params ++ [p]))) := by
  obtain ⟨token, hlook, hspells⟩ := Token.exists_look_of_cut? h.sight_behind hend hcut
  refine ⟨token.next, hspells.behind, ?_⟩
  rw [turn?, sight, hlook]
  simp only [hspells.cut?_eq, hspells.quoted_eq, h.index_eq, h.slots_eq, String.toList_ofList,
    Slots.store_cutOut hroom]
  cases field.parameter? <;> rfl

/-- Without a comma behind the field the walk is over. -/
theorem At.advance_of_last (h : At slots text walk rest params) {next : Nat}
    (hnext : Text.Behind text next later) (hlast : ∀ cs, skipPadding later ≠ ',' :: cs)
    (after : Slots limit) :
    walk.advance (Octets.ofText text) max next after = .over (.ok (params.length + 1)) after := by
  have hcomma : (Octets.ofText text)[Octets.skipPadding (Octets.ofText text) next]? ≠
      some ','.toUInt8 := by
    rw [Ne, hnext.skipPadding.getElem?_eq_iff (by decide), List.head?_eq_some_iff, not_exists]
    exact hlast
  simp only [advance, hcomma, if_false, h.index_eq]

/-- Behind a comma the walk goes on. -/
theorem At.exists_advance_of_comma (h : At slots text walk rest params)
    (hmax : max ≤ slots.capacity) {next : Nat} (hnext : Text.Behind text next later)
    {cs : List Char} (hcomma : skipPadding later = ',' :: cs) (p : Parameter) :
    ∃ on, walk.advance (Octets.ofText text) max next (slots.fill (params ++ [p])) = .goesOn on ∧
      At slots text on cs
        (if params.length + 1 < max ∧ atEnd (skipPadding cs) = true then params ++ [p, .empty]
          else params ++ [p]) := by
  have hbehind := hnext.skipPadding
  rw [hcomma] at hbehind
  have hbyte : (Octets.ofText text)[Octets.skipPadding (Octets.ofText text) next]? =
      some ','.toUInt8 := (hbehind.getElem?_eq_iff (by decide)).mpr rfl
  have hlater := hbehind.succ (by decide)
  simp only [advance, hbyte, if_true, hlater.atEnd_eq, h.index_eq]
  refine ⟨_, rfl, hlater, ?_, ?_⟩
  · split <;> simp
  · split
    case isTrue htrailing =>
      have hroom : (params ++ [p]).length < slots.capacity := by
        rw [List.length_append, List.length_singleton]
        omega
      rw [← Slots.fill_append_empty hroom, List.append_assoc, List.singleton_append]
    case isFalse => rfl

end

/-- What reading comes to that has stored `params` and then finds the rest. -/
def outcome (slots : Slots limit) (params : List Parameter) (found : Scan) :
    Except Error Nat × Slots limit :=
  (if (parameters found.fields).length < found.fields.length then .error .storageExhausted
    else if found.unclosed then .error .incomplete
    else .ok (params.length + found.fields.length),
    slots.fill (params ++ parameters found.fields))

theorem outcome_cons {field : Field} {p : Parameter} (hfield : field.parameter? = some p)
    (later : Scan) :
    outcome slots params { later with fields := field :: later.fields } =
      outcome slots (params ++ [p]) later := by
  have hcount : params.length + (later.fields.length + 1) =
      params.length + 1 + later.fields.length := by omega
  simp only [outcome, parameters, hfield, List.length_cons, Nat.add_lt_add_iff_right,
    List.length_append, List.length_nil, List.append_assoc, List.singleton_append, hcount]

theorem outcome_of_tooLong {field : Field} (hfield : field.parameter? = none) (later : Scan) :
    outcome slots params { later with fields := field :: later.fields } =
      (.error .storageExhausted, slots.fill params) := by
  simp [outcome, parameters, hfield]

theorem At.run?_of_full (h : At slots text walk rest params) (hfull : max ≤ params.length) :
    walk.run? text max = some (outcome slots params {}) := by
  rw [run?_of_le (by rw [h.index_eq]; exact hfull), h.index_eq, h.slots_eq]
  simp [outcome, parameters]

theorem At.run?_of_atEnd (h : At slots text walk rest params)
    (hend : atEnd (skipPadding rest) = true) :
    walk.run? text max = some (outcome slots params {}) := by
  by_cases hfull : max ≤ params.length
  · exact h.run?_of_full hfull
  · rw [run?_of_over (by rw [h.index_eq]; omega) (h.turn?_of_atEnd hend)]
    simp [outcome, parameters]

/-- A walk comes to what the search comes to that it has still to do. -/
theorem At.run?_eq {room : Nat} (h : At slots text walk rest params)
    (hroom : params.length + room = max) (hmax : max ≤ slots.capacity) :
    walk.run? text max = some (outcome slots params (scan room rest)) := by
  induction room generalizing walk rest params with
  | zero => exact h.run?_of_full (by omega)
  | succ room ih =>
    have hindex : walk.index < max := by
      rw [h.index_eq]
      omega
    cases hend : atEnd (skipPadding rest) with
    | true => rw [h.run?_of_atEnd hend, scan_of_atEnd hend]
    | false =>
      cases hcut : Field.cut? (skipPadding rest) with
      | none =>
        rw [run?_of_over hindex (h.turn?_of_unclosed hcut), scan_of_unclosed hend hcut]
        simp [outcome, parameters]
      | some found =>
        obtain ⟨field, later⟩ := found
        obtain ⟨next, hnext, hturn⟩ := h.exists_turn? max (by omega) hend hcut
        cases hfield : field.parameter? with
        | none =>
          rw [hfield] at hturn
          obtain ⟨found, hfound⟩ := exists_scan_eq hend hcut room
          rw [run?_of_over hindex hturn, hfound, outcome_of_tooLong hfield]
        | some p =>
          rw [hfield] at hturn
          by_cases hcomma : ∃ cs, skipPadding later = ',' :: cs
          · obtain ⟨cs, hcs⟩ := hcomma
            obtain ⟨on, hon, hat⟩ := h.exists_advance_of_comma hmax hnext hcs p
            simp only [hon] at hturn
            have hmore : params.length + 1 < max ↔ room ≠ 0 := by omega
            rw [run?_of_goesOn hindex hturn, scan_of_comma hend hcut hcs]
            simp only [hmore] at hat
            by_cases htrailing : room ≠ 0 ∧ atEnd (skipPadding cs) = true
            · rw [if_pos htrailing] at hat ⊢
              rw [hat.run?_of_atEnd htrailing.2, outcome_cons hfield { fields := [.absent] },
                outcome_cons (show Field.absent.parameter? = some .empty from rfl) {},
                List.append_assoc, List.singleton_append]
            · rw [if_neg htrailing] at hat ⊢
              rw [ih hat (by rw [List.length_append, List.length_singleton]; omega),
                outcome_cons hfield]
          · rw [not_exists] at hcomma
            simp only [h.advance_of_last hnext hcomma] at hturn
            rw [run?_of_over hindex hturn, scan_of_last hend hcut hcomma]
            simp [outcome, parameters, hfield]

/-- The token in sight can be cut out. -/
theorem At.sound (h : At slots text walk rest params) {token : Token}
    (hsight : walk.sight (Octets.ofText text) = .token token) : token.Sound text := by
  unfold sight at hsight
  cases hend : atEnd (skipPadding rest) with
  | true =>
    rw [Token.look_of_atEnd h.sight_behind hend] at hsight
    cases hsight
  | false =>
    cases hcut : Field.cut? (skipPadding rest) with
    | none =>
      rw [Token.look_of_unclosed h.sight_behind hcut] at hsight
      cases hsight
    | some found =>
      obtain ⟨field, later⟩ := found
      obtain ⟨seen, hlook, hspells⟩ := Token.exists_look_of_cut? h.sight_behind hend hcut
      cases hlook.symm.trans hsight
      exact hspells.sound

/-- A walk that goes on has again come to the beginning of a character. -/
theorem At.exists_at_of_turn? (h : At slots text walk rest params) (hmax : max ≤ slots.capacity)
    (hroom : walk.index < max) {next : Walk limit}
    (hturn : walk.turn? text max = some (.goesOn next)) :
    ∃ later more, At slots text next later more := by
  rw [h.index_eq] at hroom
  cases hend : atEnd (skipPadding rest) with
  | true => cases (h.turn?_of_atEnd hend).symm.trans hturn
  | false =>
    cases hcut : Field.cut? (skipPadding rest) with
    | none => cases (h.turn?_of_unclosed hcut).symm.trans hturn
    | some found =>
      obtain ⟨field, later⟩ := found
      obtain ⟨start, hstart, hstored⟩ := h.exists_turn? max (by omega) hend hcut
      rw [hturn] at hstored
      cases hfield : field.parameter? with
      | none =>
        rw [hfield] at hstored
        cases hstored
      | some p =>
        rw [hfield] at hstored
        by_cases hcomma : ∃ cs, skipPadding later = ',' :: cs
        · obtain ⟨cs, hcs⟩ := hcomma
          obtain ⟨on, hon, hat⟩ := h.exists_advance_of_comma hmax hstart hcs p
          simp only [hon, Option.some.injEq, Turn.goesOn.injEq] at hstored
          subst hstored
          exact ⟨_, _, hat⟩
        · rw [not_exists] at hcomma
          simp only [h.advance_of_last hstart hcomma] at hstored
          cases hstored

theorem at_start (slots : Slots limit) (text : String) :
    At slots text { slots := slots.clearAll } text.toList [] :=
  ⟨Text.behind_zero text, rfl, Slots.fill_nil.symm⟩

theorem exists_at_of_reaches (hmax : max ≤ slots.capacity)
    (h : Reaches text max { slots := slots.clearAll } walk) :
    ∃ rest params, At slots text walk rest params := by
  induction h with
  | start => exact ⟨_, _, at_start slots text⟩
  | step hreaches hroom hturn ih =>
    obtain ⟨rest, params, hat⟩ := ih
    exact hat.exists_at_of_turn? hmax hroom hturn

end Walk

namespace Slots

variable {limit : Nat}

theorem walk?_eq (slots : Slots limit) (max : Nat) (text : String) :
    slots.walk? max text = some (slots.load max text.toList) := by
  unfold walk? load
  split
  case isTrue hallocated =>
    rw [(Walk.at_start slots text).run?_eq (Nat.zero_add _) (Nat.min_le_right _ _)]
    simp [Walk.outcome]
  case isFalse => rfl

theorem walkExactly?_eq (slots : Slots limit) (count : Nat) (text : List Char) :
    slots.walkExactly? count (String.ofList text) = some (slots.loadExactly count text) := by
  rw [walkExactly?, walk?_eq, String.toList_ofList, loadExactly]
  cases slots.load count text with
  | mk result after =>
    cases result with
    | error e => rfl
    | ok count => exact (apply_ite some _ _ _).symm

end Slots

namespace Text

/-- The text from the first character of a kind on. -/
theorem behind_takeWhile (p : Char → Bool) (text : String) :
    Behind text (String.ofList (text.toList.takeWhile p)).utf8ByteSize (text.toList.dropWhile p) :=
  ⟨_, List.takeWhile_append_dropWhile.symm, rfl⟩

theorem cut?_takeWhile (p : Char → Bool) (text : String) :
    cut? text 0 (String.ofList (text.toList.takeWhile p)).utf8ByteSize =
      some (String.ofList (text.toList.takeWhile p)) := by
  have hstart := behind_zero text
  rw [← List.takeWhile_append_dropWhile (p := p) (l := text.toList)] at hstart
  have hcut := hstart.cut?
  rwa [Nat.zero_add] at hcut

/-- Without a character of the kind there is nothing from the first one on. -/
theorem not_of_any_eq_false {kind : Char → Bool} {cs : List Char} (h : cs.any kind = false) :
    ∀ c ∈ cs, (!kind c) = true := by
  intro c hc
  rw [Bool.eq_false_iff.mpr (List.any_eq_false.mp h c hc)]
  rfl

end Text

/-- A prefix ends where a character begins. -/
theorem Statement.cutPrefix?_eq (line : String) :
    cutPrefix? line = some (String.ofList (afterPrefix line.toList)) := by
  rw [cutPrefix?, Text.position?_eq]
  cases hany : line.toList.any fun c => Text.isAsciiBlank c.toNat with
  | true => exact (Text.behind_takeWhile _ line).cut?_rest
  | false =>
    rw [afterPrefix, List.dropWhile_eq_nil_iff.mpr (Text.not_of_any_eq_false hany)]
    rfl

/-- So does what stands behind the name of a command. -/
theorem Query.cutName?_eq (query : Query) :
    query.cutName? = some (String.ofList query.responseName) := by
  rw [cutName?, responseName]
  simp only [Text.position?_eq]
  cases hany : (withoutAttention query.command.toList).any fun c => c == '?' || c == '=' with
  | true =>
    have hcut := Text.cut?_takeWhile (fun c => !(c == '?' || c == '='))
      (String.ofList (withoutAttention query.command.toList))
    simpa only [String.toList_ofList, hany, if_true] using hcut
  | false =>
    rw [List.takeWhile_eq_self_iff.mpr (Text.not_of_any_eq_false hany)]
    simp only [String.toList_ofList, hany, Bool.false_eq_true, if_false]

theorem Query.walk?_eq {limit : Nat} (query : Query) (response : String) (slots : Slots limit) :
    query.walk? response slots = some (query.load response.toList slots) := by
  unfold walk? load statement?
  simp only [String.toList_ofList, query.cutName?_eq, Statement.cutPrefix?_eq,
    Slots.walkExactly?_eq]
  cases query.prefixed with
  | true =>
    simp only [if_true]
    split <;> rfl
  | false =>
    simp only [Bool.false_eq_true, if_false]
    generalize Text.trimStart response.toList = line
    split
    case h_1 => rfl
    case h_2 => rfl
    case h_3 hplus hpercent =>
      split <;> grind

/-- Digits are one byte each. -/
theorem Numeral.utf8ByteSize_of_all {cs : List Char} (h : cs.all isDecimalDigit = true) :
    (String.ofList cs).utf8ByteSize = cs.length := by
  apply Octets.utf8ByteSize_of_ascii
  intro c hc
  have hrange := toNat_of_isDecimalDigit (List.all_eq_true.mp h c hc)
  omega

/-- An operator is cut apart between two digits. -/
theorem Code.NetworkCode.cutOperator?_eq (operator : String) :
    cutOperator? operator = some (ofOperator operator) := by
  have hbytes := Octets.reads_isDecimalDigit.all operator.toList
  rw [String.ofList_toList] at hbytes
  unfold cutOperator? ofOperator
  simp only [Octets.length_ofText, hbytes]
  split
  case isTrue => rfl
  case isFalse hdigits =>
    simp only [Bool.or_eq_true, decide_eq_true_eq, Bool.not_eq_true', not_or, not_le,
      Bool.not_eq_false] at hdigits
    obtain ⟨hlong, hall⟩ := hdigits
    have hsize := Numeral.utf8ByteSize_of_all hall
    rw [String.ofList_toList] at hsize
    have hfront : (String.ofList (operator.toList.take 3)).utf8ByteSize = 3 := by
      rw [Numeral.utf8ByteSize_of_all, List.length_take]
      · omega
      · rw [List.all_eq_true] at hall ⊢
        exact fun c hc => hall c (List.mem_of_mem_take hc)
    have hhalves := Text.halves?_of_behind (List.take_append_drop 3 operator.toList).symm
    rw [hfront] at hhalves
    simp only [hhalves, String.toList_ofList]
    cases shortNumeral? (operator.toList.take 3) <;>
      cases shortNumeral? (operator.toList.drop 3) <;> rfl

namespace Slots

variable {limit : Nat} {slots : Slots limit}

/-- What reading a statement can fail with. -/
theorem eq_of_load_eq_error (hallocated : slots.isAllocated = true) {max : Nat} {text : List Char}
    {cause : Error} (h : (slots.load max text).1 = .error cause) :
    cause = .incomplete ∨ cause = .storageExhausted := by
  simp only [load, hallocated, if_true] at h
  split at h
  case isTrue => exact Or.inr (Except.error.inj h).symm
  case isFalse =>
    split at h
    case isTrue => exact Or.inl (Except.error.inj h).symm
    case isFalse => cases h

theorem eq_of_loadExactly_eq_error (hallocated : slots.isAllocated = true) {count : Nat}
    {text : List Char} {cause : Error} (h : (slots.loadExactly count text).1 = .error cause) :
    cause = .incomplete ∨ cause = .storageExhausted := by
  unfold loadExactly at h
  split at h
  case h_1 e after hload =>
    cases h
    exact eq_of_load_eq_error hallocated (by rw [hload])
  case h_2 =>
    split at h
    case isTrue => cases h
    case isFalse => exact Or.inl (Except.error.inj h).symm

end Slots

theorem Query.eq_of_load_eq_error {limit : Nat} {slots : Slots limit}
    (hallocated : slots.isAllocated = true) {query : Query} {response : List Char} {cause : Error}
    (h : (query.load response slots).1 = .error cause) :
    cause = .incomplete ∨ cause = .storageExhausted := by
  unfold load at h
  split at h
  case h_1 => exact Or.inl (Except.error.inj h).symm
  case h_2 => exact Slots.eq_of_loadExactly_eq_error hallocated h

/-- Nothing goes wrong wherever a walk over the text comes to: it stands where a character begins or
the text ends, every cut it makes is between two such positions, and every parameter it puts goes
into a slot that exists. -/
structure Walk.Safe {limit : Nat} (text : String) (max : Nat) (start : Walk limit) : Prop where
  boundary : ∀ {walk}, Reaches text max start walk → Text.IsBoundary text walk.position
  sound : ∀ {walk token}, Reaches text max start walk →
    walk.sight (Octets.ofText text) = .token token → token.Sound text
  index_lt : ∀ {walk}, Reaches text max start walk → walk.index < max →
    walk.index < walk.slots.capacity

theorem Walk.safe_start {limit : Nat} (slots : Slots limit) (text : String) {max : Nat}
    (hmax : max ≤ slots.capacity) : Safe text max { slots := slots.clearAll : Walk limit } where
  boundary hreaches := by
    obtain ⟨rest, params, hat⟩ := exists_at_of_reaches hmax hreaches
    exact hat.behind.isBoundary
  sound hreaches hsight := by
    obtain ⟨rest, params, hat⟩ := exists_at_of_reaches hmax hreaches
    exact hat.sound hsight
  index_lt hreaches hroom := by
    obtain ⟨rest, params, hat⟩ := exists_at_of_reaches hmax hreaches
    rw [hat.index_eq] at hroom ⊢
    rw [hat.slots_eq, Slots.capacity_fill (by omega)]
    omega

/-- Reading is safe for every text, whatever characters it holds and whatever stands between them.
No walk over it needs a cut or a slot that is not there, so each of them comes to an end, and what
it comes to is what reading the characters comes to. Nor is a prefix, an operator or the name of a
command cut inside a character. With slots to read into, the only failures are a response that is
incomplete and a text that is too long. -/
theorem Slots.walk_within_text {limit : Nat} (slots : Slots limit) (max : Nat) (text : String) :
    (slots.isAllocated = true →
      Walk.Safe text (min max slots.capacity) { slots := slots.clearAll : Walk limit } ∧
      (∀ cause, (slots.load max text.toList).1 = .error cause →
        cause = .incomplete ∨ cause = .storageExhausted) ∧
      (∀ count cause, (slots.loadExactly count text.toList).1 = .error cause →
        cause = .incomplete ∨ cause = .storageExhausted) ∧
      ∀ (query : Query) (cause : Error), (query.load text.toList slots).1 = .error cause →
        cause = .incomplete ∨ cause = .storageExhausted) ∧
    slots.walk? max text = some (slots.load max text.toList) ∧
    (∀ count, slots.walkExactly? count text = some (slots.loadExactly count text.toList)) ∧
    (∀ query : Query, query.walk? text slots = some (query.load text.toList slots) ∧
      query.cutName? = some (String.ofList query.responseName)) ∧
    Statement.cutPrefix? text = some (String.ofList (Statement.afterPrefix text.toList)) ∧
    Code.NetworkCode.cutOperator? text = some (Code.NetworkCode.ofOperator text) := by
  refine ⟨fun hallocated => ⟨Walk.safe_start slots text (Nat.min_le_right _ _),
    fun _ => eq_of_load_eq_error hallocated, fun _ _ => eq_of_loadExactly_eq_error hallocated,
    fun _ _ => Query.eq_of_load_eq_error hallocated⟩, slots.walk?_eq max text, fun count => ?_,
    fun query => ⟨query.walk?_eq text slots, query.cutName?_eq⟩, Statement.cutPrefix?_eq text,
    Code.NetworkCode.cutOperator?_eq text⟩
  rw [← slots.walkExactly?_eq, String.ofList_toList]

/-- Every character of this text takes two bytes or more but those that mark its fields, the last
of which is open. -/
theorem Slots.walk_within_text_accented :
    let slots : Slots 3 := full
    let text := "é,\"ü"
    let first : Token := { start := 0, stop := 2, next := 2 }
    first.Sound text ∧ slots.walk? 3 text = some (.error .incomplete, slots.fill [.text "é"]) := by
  intro slots text first
  obtain ⟨hsafe, hwalk, -⟩ := walk_within_text slots 3 text
  have hallocated : slots.isAllocated = true := rfl
  have hsight : ({ slots := slots.clearAll } : Walk 3).sight (Octets.ofText text) =
      .token first := by decide +kernel
  exact ⟨(hsafe hallocated).1.sound .start hsight, hwalk.trans (by decide)⟩

end CellModem
