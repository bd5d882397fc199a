import CellModem.Proofs.Pass
import CellModem.Proofs.Rendering
import CellModem.Proofs.Script
import CellModem.Proofs.Typed
import CellModem.Text.Cut

/-!
What a modem has to report, and the lines in which it replies to the commands of a pass. Each of
these lines passes for the data of its command, however it is cut, and tells the values that are in
it.
-/

namespace CellModem

namespace Octets

theorem dropWhile_eq_self {bytes : Octets}
    (h : ∀ b ∈ bytes, Text.isAsciiBlank b.toNat = false) :
    bytes.dropWhile (fun b => Text.isAsciiBlank b.toNat) = bytes :=
  List.dropWhile_eq_self_iff.mpr fun hlength =>
    Bool.eq_false_iff.mp (h _ (List.getElem_mem hlength))

theorem dropWhile_reverse_eq_self {bytes : Octets}
    (h : ∀ b ∈ bytes, Text.isAsciiBlank b.toNat = false) :
    bytes.reverse.dropWhile (fun b => Text.isAsciiBlank b.toNat) = bytes.reverse :=
  dropWhile_eq_self fun b hb => h b (List.mem_reverse.mp hb)

/-- Without white space there is nothing to trim. -/
theorem trim_eq_self {bytes : Octets} (h : ∀ b ∈ bytes, Text.isAsciiBlank b.toNat = false) :
    bytes.trim = bytes := by
  simp only [trim, dropWhile_eq_self h, dropWhile_reverse_eq_self h, List.reverse_reverse]

/-- More bytes behind it leave a piece without white space where it is. -/
theorem prefix_trim {head : Octets} (h : ∀ b ∈ head, Text.isAsciiBlank b.toNat = false)
    (rest : Octets) : head <+: (head ++ rest).trim := by
  cases head with
  | nil => exact List.nil_prefix
  | cons b head =>
    have hstart : (b :: head ++ rest).dropWhile (fun b => Text.isAsciiBlank b.toNat) =
        b :: head ++ rest := List.dropWhile_cons_of_neg (by simp [h b])
    unfold trim
    simp only
    rw [hstart, List.reverse_append, List.dropWhile_append]
    split
    case isTrue => rw [dropWhile_reverse_eq_self h, List.reverse_reverse]
    case isFalse =>
      rw [List.reverse_append, List.reverse_reverse]
      exact List.prefix_append _ _

end Octets

namespace Line

/-- What a line that is not data may begin with, apart from white space. -/
def marks (command : Octets) : List Octets :=
  [command, Octets.ofText noticeMark, Octets.ofText "OK", Octets.ofText "ERROR",
    Octets.ofText "+CME ERROR", Octets.ofText "+CMS ERROR"]

theorem kind_of_unmarked {command line : Octets} (hne : line.trim ≠ [])
    (h : ∀ mark ∈ marks command, ¬ mark <+: line.trim) : kind command line = .data := by
  simp only [marks, List.forall_mem_cons, List.not_mem_nil, false_implies, implies_true,
    and_true] at h
  obtain ⟨hcommand, hnotice, hok, herror, hcme, hcms⟩ := h
  have hother (mark : Octets) (hmark : ¬ mark <+: line.trim) : line.trim ≠ mark := by
    rintro heq
    exact hmark (heq ▸ List.prefix_refl _)
  have hverdict : verdict? line.trim = none := by
    simp [verdict?, hother _ hok, hother _ herror, hcme, hcms]
  simp [kind, hne, hother _ hcommand, isNotice, hnotice, hverdict]

/-- A line that begins like this has neither a mark in front nor white space. -/
def Heads (command head : Octets) : Prop :=
  (∀ b ∈ head, Text.isAsciiBlank b.toNat = false) ∧ head ≠ [] ∧
    (∀ mark ∈ marks command, ¬ mark <+: head ∧ ¬ head <+: mark) ∧
    kind command (Octets.ofText "OK") = .verdict .accepted

instance (command head : Octets) : Decidable (Heads command head) :=
  inferInstanceAs (Decidable (_ ∧ _ ∧ _ ∧ _))

theorem lineFeed_notMem_of_blank {bytes : Octets}
    (h : ∀ b ∈ bytes, Text.isAsciiBlank b.toNat = false) : lineFeed ∉ bytes := by
  intro hmem
  cases h lineFeed hmem

theorem Heads.sole {command head rest : Octets} (h : Heads command head)
    (hrest : lineFeed ∉ rest) : Sole command (head ++ rest) := by
  obtain ⟨hblank, hne, hmarks, hfinal⟩ := h
  -- a mark in front of a longer line is in front of its head, or the other way round
  have hunmarked : ∀ line, head <+: line → ∀ mark ∈ marks command, ¬ mark <+: line := by
    intro line hline mark hmark hstarts
    rcases List.prefix_or_prefix_of_prefix hstarts hline with hfront | hfront
    · exact (hmarks mark hmark).1 hfront
    · exact (hmarks mark hmark).2 hfront
  have hfront := Octets.prefix_trim hblank rest
  constructor
  case whole =>
    rw [List.mem_append]
    exact not_or_intro (lineFeed_notMem_of_blank hblank) hrest
  case data =>
    refine kind_of_unmarked (fun hnil => ?_) (hunmarked _ hfront)
    rw [hnil] at hfront
    exact hne (List.prefix_nil.mp hfront)
  case plain =>
    have hplain := hunmarked _ (List.prefix_append head rest)
    rintro (hok | herror)
    · exact hplain _ (by simp [marks]) hok
    · exact hplain _ (by simp [marks]) herror
  case final => exact hfinal

end Line

namespace Statement

/-- Writing presents what was written, if nothing of it is missing. -/
theorem presents_spell {items : List Padded}
    (h : ∀ item ∈ items, item.entry.parameter.isEmpty = false) :
    Presents (spell items) (items.map fun item => item.entry.parameter) where
  fields := by
    have hlone : ∀ item, items = [item] → item.entry ≠ .empty := by
      rintro item rfl hempty
      have hthere := h item List.mem_cons_self
      rw [hempty] at hthere
      cases hthere
    have hscan := scan_spell (rfl : atEnd [] = true) hlone (Nat.le_refl items.length)
    rw [List.append_nil] at hscan
    rw [List.length_map, hscan]
    simp [Padded.parameter?_field]
  present p hp := by
    obtain ⟨item, hitem, rfl⟩ := List.mem_map.mp hp
    exact h item hitem

end Statement

namespace Query

/-- What stands behind a name without white space and the colon is the statement, if it begins with
white space. -/
theorem statement?_of_name {query : Query} (hprefixed : query.prefixed = true)
    (hname : ∀ c ∈ query.responseName, Text.isBlank c = false) {text : List Char}
    (htext : ∀ c ∈ text.head?, Text.isAsciiBlank c.toNat = true) :
    query.statement? (query.responseName ++ ':' :: text) = some text := by
  have hhead : ∀ c ∈ (query.responseName ++ ':' :: text).head?, Text.isBlank c = false := by
    intro c hc
    cases hletters : query.responseName with
    | nil =>
      rw [hletters] at hc
      cases hc
      rfl
    | cons first rest =>
      rw [hletters] at hc
      cases hc
      exact hname _ (by simp [hletters])
  have hstarts : (query.responseName ++ [':']).isPrefixOf (query.responseName ++ ':' :: text) =
      true := by
    rw [List.isPrefixOf_iff_prefix]
    exact ⟨text, by simp⟩
  have hafter : Statement.afterPrefix (query.responseName ++ ':' :: text) = text := by
    refine Statement.afterPrefix_eq_iff.mpr ⟨fun c hc => ?_, htext⟩
    rw [Bool.eq_false_iff]
    intro hblank
    exact Bool.false_ne_true ((hname c hc).symm.trans (Text.isBlank_of_isAsciiBlank hblank))
  simp only [statement?, hprefixed, if_true, Text.trimStart_eq_self hhead, hstarts, hafter]

end Query

theorem Item.not_isBlank_responseName (item : Item) :
    ∀ c ∈ item.query.responseName, Text.isBlank c = false := by
  have hall : (item.query.responseName.all fun c => !Text.isBlank c) = true := by
    cases item <;> rfl
  intro c hc
  simpa using List.all_eq_true.mp hall c hc

/-- What a modem has to report. -/
structure Profile where
  currentBand : UInt16
  supportedBands : Profile.BandList
  accessPoint : Profile.Quotation
  ipAddress : Profile.Quotation
  ueMode : UInt16
  operator : Profile.OperatorName
  areaCode : Profile.HexNumeral
  cellId : Profile.HexNumeral
  lteMode : UInt16
  nbiotMode : UInt16
  gpsMode : UInt16
  preferredMode : UInt16
  uiccState : UInt16
  iccid : Profile.CardNumber
  firmware : Profile.FirmwareName
  battery : UInt16

namespace Profile

open Statement

theorem isPadding_of_mem_nil : ∀ c ∈ ([] : List Char), isPadding c = true :=
  List.forall_mem_nil _

theorem isPadding_of_mem_space : ∀ c ∈ [' '], isPadding c = true :=
  List.forall_mem_singleton.mpr rfl

def unpadded (entries : List Entry) : List Padded :=
  entries.map fun entry =>
    { entry, before_padding := isPadding_of_mem_nil, after_padding := isPadding_of_mem_nil }

/-- Parameters behind a colon: a space in front of the first one, and no other padding. -/
def listing : List Entry → List Padded
  | [] => []
  | entry :: entries =>
    { before := [' '], entry, before_padding := isPadding_of_mem_space
      after_padding := isPadding_of_mem_nil } :: unpadded entries

/-- The line that lists these parameters behind a name. -/
def statement (name : String) (entries : List Entry) : String :=
  name ++ ":" ++ String.ofList (spell (listing entries))

def protocolType : Quotation :=
  .ofName ['I', 'P'] (List.all_eq_true.mp rfl) (by decide)

/-- The first context: its number, its type, its access point and its address, and two settings. -/
def context (profile : Profile) : List Entry :=
  [.short 0, protocolType.entry, profile.accessPoint.entry, profile.ipAddress.entry, .short 0,
    .short 0]

/-- A way to choose the operator, the numeric form, the operator and the access technology. -/
def registration (profile : Profile) : List Entry :=
  [.short 0, .short 2, profile.operator.quotation.entry, .short 7]

/-- What is reported of the network, the state in it, the place and the access technology. -/
def place (profile : Profile) : List Entry :=
  [.short 2, .short 1, profile.areaCode.quotation.entry, profile.cellId.quotation.entry, .short 7]

def modes (profile : Profile) : List Entry :=
  [.short profile.lteMode, .short profile.nbiotMode, .short profile.gpsMode,
    .short profile.preferredMode]

/-- The two status words of the card, and what was read from it. -/
def card (profile : Profile) : List Entry :=
  [.short 144, .short 0, profile.iccid.quotation.entry]

/-- The commands of a pass, each with the line in which the modem replies to it. -/
def responses (profile : Profile) : List (String × String) :=
  [("AT%XCBAND", statement "%XCBAND" [.short profile.currentBand]),
    ("AT%XCBAND=?", statement "%XCBAND" [profile.supportedBands.entry]),
    ("AT+CGDCONT?", statement "+CGDCONT" profile.context),
    ("AT+CEMODE?", statement "+CEMODE" [.short profile.ueMode]),
    ("AT+COPS?", statement "+COPS" profile.registration),
    ("AT+CEREG?", statement "+CEREG" profile.place),
    ("AT%XSYSTEMMODE?", statement "%XSYSTEMMODE" profile.modes),
    ("AT%XSIM?", statement "%XSIM" [.short profile.uiccState]),
    ("AT+CRSM=176,12258,0,0,10", statement "+CRSM" profile.card),
    ("AT+CGMR", String.ofList profile.firmware.text),
    ("AT%XVBAT", statement "%XVBAT" [.short profile.battery])]

/-- The bytes in which it does so. -/
def line (profile : Profile) (command : String) : Octets :=
  Octets.ofText ((profile.responses.lookup command).getD "")

theorem map_fst_responses (profile : Profile) :
    profile.responses.map Prod.fst = Survey.commands :=
  rfl

theorem line_of_mem (profile : Profile) :
    ∀ response ∈ profile.responses, profile.line response.1 = Octets.ofText response.2 := by
  simp only [responses, List.forall_mem_cons, List.not_mem_nil, false_implies, implies_true,
    and_true]
  exact ⟨rfl, rfl, rfl, rfl, rfl, rfl, rfl, rfl, rfl, rfl, rfl⟩

/-- A parameter that is there, keeps to its line and is not too long. -/
structure Solid (entry : Entry) (room : Nat) : Prop where
  present : entry.parameter.isEmpty = false
  whole : '\n' ∉ entry.spell
  short : (String.ofList entry.spell).utf8ByteSize ≤ room

theorem isNameChar_of_isDecimalDigit {c : Char} (h : Numeral.isDecimalDigit c = true) :
    isNameChar c = true := by
  have hrange := Numeral.toNat_of_isDecimalDigit h
  have hdigit : c.isDigit = true := by
    simp only [Char.isDigit, Bool.and_eq_true, decide_eq_true_eq, ge_iff_le,
      UInt32.le_iff_toNat_le]
    exact hrange
  simp [isNameChar, Char.isAlphanum, hdigit]

theorem solid_short (value : UInt16) : Solid (.short value) 5 where
  present := rfl
  whole := notMem_of_isNameChar
    (fun _ hc => isNameChar_of_isDecimalDigit (Numeral.isDecimalDigit_of_mem_decimal hc))
    (by decide)
  short := by
    have hsmall : value.toNat < 10 ^ 5 := Nat.lt_trans value.toNat_lt (by norm_num)
    rw [Entry.spell, utf8ByteSize_of_isNameChar fun c hc =>
      isNameChar_of_isDecimalDigit (Numeral.isDecimalDigit_of_mem_decimal hc)]
    rw [Numeral.decimal_eq_toDigits, Nat.length_toDigits_le_iff (by decide) (by decide)]
    exact hsmall

theorem solid_quotation (quotation : Quotation) : Solid quotation.entry 66 where
  present := rfl
  whole := by
    simp [Quotation.entry, Entry.spell, quotation.whole]
  short := by
    have hfits : (String.ofList quotation.text).utf8ByteSize ≤ 64 := quotation.fits
    have hspell : quotation.entry.spell = ['"'] ++ quotation.text ++ ['"'] := rfl
    rw [hspell, String.ofList_append, String.ofList_append, String.utf8ByteSize_append,
      String.utf8ByteSize_append]
    have hquote : (String.ofList ['"']).utf8ByteSize = 1 := by decide
    omega

theorem solid_bands (bands : BandList) : Solid bands.entry 64 where
  present := rfl
  whole := by
    simp [BandList.entry, Entry.spell, bands.whole]
  short := bands.fits

section Lines

variable {item : Item} {command name : String} {entries : List Entry} {rooms : List Nat}

theorem spell_unpadded_cons (entry second : Entry) (entries : List Entry) :
    spell (unpadded (entry :: second :: entries)) =
      entry.spell ++ ([','] ++ spell (unpadded (second :: entries))) := by
  simp [unpadded, spell_cons_cons, Padded.spell]

theorem spell_unpadded_singleton (entry : Entry) : spell (unpadded [entry]) = entry.spell := by
  simp [unpadded, spell_singleton, Padded.spell]

theorem spell_listing (hentries : entries ≠ []) :
    spell (listing entries) = ' ' :: spell (unpadded entries) := by
  cases entries with
  | nil => exact absurd rfl hentries
  | cons entry entries =>
    cases entries with
    | nil => simp [listing, unpadded, spell_singleton, Padded.spell]
    | cons second entries => simp [listing, unpadded, spell_cons_cons, Padded.spell]

/-- There is no line end among solid entries and what is put between them. -/
theorem feed_notMem_spell (h : List.Forall₂ Solid entries rooms) :
    '\n' ∉ spell (unpadded entries) := by
  induction h with
  | nil => exact List.not_mem_nil
  | cons hsolid hrest ih =>
    cases hrest with
    | nil =>
      rw [spell_unpadded_singleton]
      exact hsolid.whole
    | cons hsecond hlater =>
      rw [spell_unpadded_cons, List.mem_append, List.mem_append]
      exact not_or_intro hsolid.whole (not_or_intro (by decide) ih)

/-- With commas between them, entries take one byte more each. -/
theorem size_spell_le (h : List.Forall₂ Solid entries rooms) :
    (String.ofList (spell (unpadded entries))).utf8ByteSize ≤ (rooms.map (· + 1)).sum := by
  induction h with
  | nil => exact Nat.le_refl 0
  | cons hsolid hrest ih =>
    have hshort := hsolid.short
    cases hrest with
    | nil =>
      rw [spell_unpadded_singleton, List.map_singleton, List.sum_singleton]
      omega
    | cons hsecond hlater =>
      have hcomma : (String.ofList [',']).utf8ByteSize = 1 := by decide
      rw [spell_unpadded_cons, Text.size_append, Text.size_append, hcomma, List.map_cons, List.sum_cons]
      omega

theorem ofText_statement (name : String) (entries : List Entry) :
    Octets.ofText (statement name entries) =
      Octets.ofText (name ++ ":") ++ Octets.ofText (String.ofList (spell (listing entries))) := by
  rw [statement, Octets.ofText_append]

theorem length_statement_le (hentries : entries ≠ []) (h : List.Forall₂ Solid entries rooms) :
    (Octets.ofText (statement name entries)).length ≤
      name.utf8ByteSize + 2 + (rooms.map (· + 1)).sum := by
  have hsize := size_spell_le h
  have hcolon : (":" : String).utf8ByteSize = 1 := by decide
  have hspace : (String.ofList [' ']).utf8ByteSize = 1 := by decide
  rw [Octets.length_ofText, statement, String.utf8ByteSize_append, String.utf8ByteSize_append,
    spell_listing hentries, ← List.singleton_append, Text.size_append, hcolon, hspace]
  omega

theorem sole_statement (hentries : entries ≠ []) (h : List.Forall₂ Solid entries rooms)
    (hheads : Line.Heads (Octets.ofText command) (Octets.ofText (name ++ ":"))) :
    Line.Sole (Octets.ofText command) (Octets.ofText (statement name entries)) := by
  rw [ofText_statement]
  refine hheads.sole (Octets.lineFeed_notMem_ofText ?_)
  rw [spell_listing hentries, List.mem_cons]
  exact not_or_intro (by decide) (feed_notMem_spell h)

theorem map_parameter_listing (entries : List Entry) :
    (listing entries).map (fun padded => padded.entry.parameter) =
      entries.map Entry.parameter := by
  cases entries with
  | nil => rfl
  | cons entry entries => simp [listing, unpadded, Function.comp_def]

theorem present_of_mem (h : List.Forall₂ Solid entries rooms) {entry : Entry}
    (hentry : entry ∈ entries) : entry.parameter.isEmpty = false := by
  induction h with
  | nil => cases hentry
  | cons hsolid hrest ih =>
    rcases List.mem_cons.mp hentry with rfl | hlater
    · exact hsolid.present
    · exact ih hlater

/-- A statement tells an item the value of the entry at its position. -/
theorem tells_statement (hprefixed : item.query.prefixed = true)
    (hname : item.query.responseName = name.toList) (hcount : entries.length = item.query.count)
    (h : List.Forall₂ Solid entries rooms) {entry : Entry} {value : Value}
    (hentry : entries[item.query.index]? = some entry)
    (hdecode : item.query.decode entry.parameter = .ok value) :
    item.Tells (Octets.ofText (statement name entries)) value := by
  have hentries : entries ≠ [] := by
    rintro rfl
    cases hentry
  have hpresent : ∀ padded ∈ listing entries, padded.entry.parameter.isEmpty = false := by
    intro padded hpadded
    have hmem : padded.entry.parameter ∈ entries.map Entry.parameter := by
      rw [← map_parameter_listing]
      exact List.mem_map.mpr ⟨padded, hpadded, rfl⟩
    obtain ⟨other, hother, hsame⟩ := List.mem_map.mp hmem
    rw [← hsame]
    exact present_of_mem h hother
  have hstatement : item.query.statement? (statement name entries).toList =
      some (spell (listing entries)) := by
    have htext : (statement name entries).toList =
        item.query.responseName ++ ':' :: spell (listing entries) := by
      simp [statement, hname]
    rw [htext]
    refine Query.statement?_of_name hprefixed item.not_isBlank_responseName ?_
    rw [spell_listing hentries]
    rintro c ⟨⟩
    rfl
  refine ⟨_, Octets.text?_ofText _, _, _, entry.parameter, hstatement, ?_,
    presents_spell hpresent, ?_, hdecode⟩
  · rw [map_parameter_listing, List.length_map, hcount]
  · rw [map_parameter_listing, List.getElem?_map, hentry]
    rfl

theorem passes_statement (hentries : entries ≠ []) (h : List.Forall₂ Solid entries rooms)
    (hheads : Line.Heads (Octets.ofText command) (Octets.ofText (name ++ ":")))
    (hroom : name.utf8ByteSize + 2 + (rooms.map (· + 1)).sum + 8 < Limits.response) :
    Line.Sole (Octets.ofText command) (Octets.ofText (statement name entries)) ∧
      (Octets.ofText (statement name entries)).length + 8 < Limits.response :=
  ⟨sole_statement hentries h hheads,
    Nat.lt_of_le_of_lt (Nat.add_le_add_right (length_statement_le hentries h) 8) hroom⟩

end Lines

section Pass

variable (profile : Profile)

theorem solid_context : List.Forall₂ Solid profile.context [5, 66, 66, 66, 5, 5] :=
  .cons (solid_short 0) <| .cons (solid_quotation _) <| .cons (solid_quotation _) <|
    .cons (solid_quotation _) <| .cons (solid_short 0) <| .cons (solid_short 0) .nil

theorem solid_registration : List.Forall₂ Solid profile.registration [5, 5, 66, 5] :=
  .cons (solid_short 0) <| .cons (solid_short 2) <| .cons (solid_quotation _) <|
    .cons (solid_short 7) .nil

theorem solid_place : List.Forall₂ Solid profile.place [5, 5, 66, 66, 5] :=
  .cons (solid_short 2) <| .cons (solid_short 1) <| .cons (solid_quotation _) <|
    .cons (solid_quotation _) <| .cons (solid_short 7) .nil

theorem solid_modes : List.Forall₂ Solid profile.modes [5, 5, 5, 5] :=
  .cons (solid_short _) <| .cons (solid_short _) <| .cons (solid_short _) <|
    .cons (solid_short _) .nil

theorem solid_card : List.Forall₂ Solid profile.card [5, 5, 66] :=
  .cons (solid_short 144) <| .cons (solid_short 0) <| .cons (solid_quotation _) .nil

theorem solid_number (value : UInt16) : List.Forall₂ Solid [.short value] [5] :=
  .cons (solid_short value) .nil

theorem solid_list (bands : BandList) : List.Forall₂ Solid [bands.entry] [64] :=
  .cons (solid_bands bands) .nil

/-- The name of a firmware version passes for data too. -/
theorem passes_firmware :
    Line.Sole (Octets.ofText "AT+CGMR") (Octets.ofText (String.ofList profile.firmware.text)) ∧
      (Octets.ofText (String.ofList profile.firmware.text)).length + 8 < Limits.response := by
  obtain ⟨text, hname, hshort, ⟨c, hc, -⟩, hplain⟩ := profile.firmware
  have hrange {b : UInt8} (hb : b ∈ Octets.ofText (String.ofList text)) :
      45 ≤ b.toNat ∧ b.toNat ≤ 122 := toNat_of_mem_ofText hname hb
  have hblank : ∀ b ∈ Octets.ofText (String.ofList text), Text.isAsciiBlank b.toNat = false := by
    intro b hb
    have hcode := hrange hb
    simp only [Text.isAsciiBlank, Bool.or_eq_false_iff, beq_eq_false_iff_ne]
    omega
  have htrim := Octets.trim_eq_self hblank
  -- a plus sign or a per cent sign is below all characters of the name
  have hlow {mark : Octets} (hmark : ∃ b ∈ mark, b.toNat < 45) :
      ¬ mark <+: Octets.ofText (String.ofList text) := by
    rintro ⟨more, hmore⟩
    obtain ⟨b, hb, hlow⟩ := hmark
    have hcode := hrange (hmore ▸ List.mem_append_left more hb)
    omega
  have hwhole := Line.lineFeed_notMem_of_blank hblank
  refine ⟨⟨hwhole, Line.kind_of_unmarked ?_ ?_, hplain, by decide⟩, ?_⟩
  · rw [htrim, ofText_of_isNameChar hname]
    exact List.ne_nil_of_length_pos (by rw [List.length_map]; exact List.length_pos_of_mem hc)
  · rw [htrim]
    simp only [Line.marks, List.forall_mem_cons, List.not_mem_nil, false_implies, implies_true,
      and_true]
    exact ⟨hlow (by decide), hlow (by decide), fun hok => hplain (Or.inl hok),
      fun herror => hplain (Or.inr herror), hlow (by decide), hlow (by decide)⟩
  · rw [ofText_of_isNameChar hname, List.length_map]
    exact Nat.lt_of_le_of_lt (Nat.add_le_add_right hshort 8) (by decide)

/-- Each line passes for the data of its command, and leaves room for what comes with it. -/
theorem passes {command : String} (h : command ∈ Survey.commands) :
    Line.Sole (Octets.ofText command) (profile.line command) ∧
      (profile.line command).length + 8 < Limits.response := by
  simp only [Survey.commands, List.mem_cons, List.not_mem_nil, or_false] at h
  rcases h with rfl | rfl | rfl | rfl | rfl | rfl | rfl | rfl | rfl | rfl | rfl
  · exact passes_statement (by simp) (solid_number _) (by decide +kernel) (by decide)
  · exact passes_statement (by simp) (solid_list _) (by decide +kernel) (by decide)
  · exact passes_statement (by simp [context]) profile.solid_context (by decide +kernel) (by decide)
  · exact passes_statement (by simp) (solid_number _) (by decide +kernel) (by decide)
  · exact passes_statement (by simp [registration]) profile.solid_registration
      (by decide +kernel) (by decide)
  · exact passes_statement (by simp [place]) profile.solid_place (by decide +kernel) (by decide)
  · exact passes_statement (by simp [modes]) profile.solid_modes (by decide +kernel) (by decide)
  · exact passes_statement (by simp) (solid_number _) (by decide +kernel) (by decide)
  · exact passes_statement (by simp [card]) profile.solid_card (by decide +kernel) (by decide)
  · exact profile.passes_firmware
  · exact passes_statement (by simp) (solid_number _) (by decide +kernel) (by decide)

/-- What the items of a report are worth. -/
def value? (profile : Profile) : Item → Option Value
  | .currentBand => some (.number profile.currentBand)
  | .supportedBands =>
    some (.text (String.ofList ('(' :: (profile.supportedBands.inner ++ [')']))))
  | .ipAddress => some (.text (String.ofList profile.ipAddress.text))
  | .ueMode => some (.number profile.ueMode)
  | .operator => some (.text (String.ofList profile.operator.text))
  | .areaCode => some (.text (String.ofList profile.areaCode.text))
  | .cellId => some (.text (String.ofList profile.cellId.text))
  | .lteMode => some (.number profile.lteMode)
  | .nbiotMode => some (.number profile.nbiotMode)
  | .gpsMode => some (.number profile.gpsMode)
  | .uiccState => some (.number profile.uiccState)
  | .iccid => some (.text (String.ofList profile.iccid.text))
  | .firmware => some (.text (String.ofList profile.firmware.text))
  | .battery => some (.number profile.battery)
  | _ => none

theorem decode_quotation {query : Query} (hdecoding : query.decoding = .plain)
    (hkind : query.kind = .text) (quotation : Quotation) :
    query.decode quotation.entry.parameter = .ok (.text (String.ofList quotation.text)) := by
  rw [Quotation.parameter_entry, Query.decode, hdecoding, hkind]
  rfl

theorem decode_card :
    Item.iccid.query.decode profile.iccid.quotation.entry.parameter =
      .ok (.text (String.ofList profile.iccid.text)) := by
  have hrestore : Code.restoreSemiOctets Limits.text (String.ofList profile.iccid.quotation.text) =
      .ok (String.ofList profile.iccid.text) := profile.iccid.restoreSemiOctets_swapped
  have hdecode (s : String) : Item.iccid.query.decode (.text s) = do
      return .text (← Code.restoreSemiOctets Limits.text s) := rfl
  rw [Quotation.parameter_entry, hdecode, hrestore]
  rfl

/-- The name of a firmware version is the whole statement. -/
theorem tells_firmware :
    Item.firmware.Tells (Octets.ofText (String.ofList profile.firmware.text))
      (.text (String.ofList profile.firmware.text)) := by
  have hname := profile.firmware.name
  have hstatement : Item.firmware.query.statement? profile.firmware.text =
      some profile.firmware.text := by
    have htrim : Text.trimStart profile.firmware.text = profile.firmware.text :=
      Text.trimStart_eq_self fun c hc =>
        not_isBlank_of_isNameChar (hname c (List.mem_of_mem_head? hc))
    have hbare : Item.firmware.query.prefixed = false := rfl
    simp only [Query.statement?, htrim, hbare, Bool.false_eq_true, if_false]
    split
    case h_1 rest hplus =>
      exact absurd (hplus ▸ List.mem_cons_self) (notMem_of_isNameChar hname (by decide))
    case h_2 rest hpercent =>
      exact absurd (hpercent ▸ List.mem_cons_self) (notMem_of_isNameChar hname (by decide))
    case h_3 => rfl
  have hspell : spell (unpadded [profile.firmware.entry]) = profile.firmware.text :=
    spell_unpadded_singleton _
  have hpresents : Presents (spell (unpadded [profile.firmware.entry]))
      [.text (String.ofList profile.firmware.text)] := by
    apply presents_spell
    intro padded hpadded
    rw [List.mem_singleton.mp hpadded]
    rfl
  rw [hspell] at hpresents
  refine ⟨_, Octets.text?_ofText _, _, _, _, ?_, ?_, hpresents, rfl, rfl⟩
  · rw [String.toList_ofList]
    exact hstatement
  · rfl

/-- Each item is told its value in the response to its command. -/
theorem tells {item : Item} {value : Value} (h : profile.value? item = some value) :
    item.Tells (profile.line item.command) value := by
  cases item <;> simp only [value?, reduceCtorEq, Option.some.injEq] at h <;> subst h
  case currentBand => exact tells_statement rfl rfl rfl (solid_number _) rfl rfl
  case supportedBands => exact tells_statement rfl rfl rfl (solid_list _) rfl rfl
  case ueMode => exact tells_statement rfl rfl rfl (solid_number _) rfl rfl
  case operator =>
    exact tells_statement rfl rfl rfl profile.solid_registration rfl (decode_quotation rfl rfl _)
  case areaCode =>
    exact tells_statement rfl rfl rfl profile.solid_place rfl (decode_quotation rfl rfl _)
  case cellId =>
    exact tells_statement rfl rfl rfl profile.solid_place rfl (decode_quotation rfl rfl _)
  case ipAddress =>
    exact tells_statement rfl rfl rfl profile.solid_context rfl (decode_quotation rfl rfl _)
  case uiccState => exact tells_statement rfl rfl rfl (solid_number _) rfl rfl
  case battery => exact tells_statement rfl rfl rfl (solid_number _) rfl rfl
  case firmware => exact profile.tells_firmware
  case iccid => exact tells_statement rfl rfl rfl profile.solid_card rfl profile.decode_card
  case lteMode => exact tells_statement rfl rfl rfl profile.solid_modes rfl rfl
  case nbiotMode => exact tells_statement rfl rfl rfl profile.solid_modes rfl rfl
  case gpsMode => exact tells_statement rfl rfl rfl profile.solid_modes rfl rfl

end Pass

end Profile

end CellModem
