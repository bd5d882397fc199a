import CellModem.Bench.Modem
import CellModem.Proofs.Client
import CellModem.Survey.Collection

/-!
What a collection of a report notes. Every value that is missing from the report has been noted, in
the order in which the values are asked for, and nothing else has. For that a failure must be noted
wherever a value is lost: in the exchange, in the response, in the parameter or in what is made of
it; and where something was obtained it must not be lost silently for being of the wrong kind.
-/

namespace CellModem

namespace Survey

/-- Note one failure after another. -/
def Failures.noteAll (failures news : Failures) : Failures :=
  news.foldl (fun failures new => failures.note new.1 new.2) failures

theorem Failures.noteAll_append (failures news later : Failures) :
    failures.noteAll (news ++ later) = (failures.noteAll news).noteAll later :=
  List.foldl_append

/-- None of them is lost as long as there is room. -/
theorem Failures.noteAll_of_length {failures news : Failures}
    (h : failures.length + news.length ≤ Item.all.length) :
    failures.noteAll news = failures ++ news := by
  induction news generalizing failures with
  | nil => exact (List.append_nil failures).symm
  | cons new news ih =>
    rw [List.length_cons] at h
    have hnote : failures.note new.1 new.2 = failures ++ [new] := if_pos (by omega)
    have hroom : (failures ++ [new]).length + news.length ≤ Item.all.length := by
      rw [List.length_append, List.length_singleton]
      omega
    calc failures.noteAll (new :: news) = (failures.note new.1 new.2).noteAll news := rfl
      _ = (failures ++ [new]) ++ news := by rw [hnote, ih hroom]
      _ = failures ++ new :: news := (List.append_cons failures new news).symm

/-- The item, if its value is missing. -/
def missing (item : Item) (lacks : Bool) : List Item :=
  if lacks then [item] else []

namespace Collection

variable {α β : Type}

/-- Whatever comes of it, a collection keeps the settings, sends these commands, notes failures and
no other changes, and ends as is said of its value and the items of the failures. -/
def Collects (post : α → List Item → Prop) (collection : Collection α) (commands : List String) :
    Prop :=
  ∀ noted client, ((collection.run noted).run client).Makes
    (fun outcome => outcome.2.settings = client.settings ∧ ∃ news : Failures,
      outcome.1.2 = noted.noteAll news ∧ post outcome.1.1 (news.map Prod.fst))
    (commands.map fun command => client.call command Limits.response)

theorem Collects.imp {post post' : α → List Item → Prop} {collection : Collection α}
    {commands : List String} (h : Collects post collection commands)
    (hpost : ∀ value items, post value items → post' value items) :
    Collects post' collection commands := by
  intro noted client
  refine (h noted client).imp fun outcome ⟨hsettings, news, hnews, hvalue⟩ => ?_
  exact ⟨hsettings, news, hnews, hpost _ _ hvalue⟩

theorem Collects.pure {post : α → List Item → Prop} {value : α} (h : post value []) :
    Collects post (Pure.pure value : Collection α) [] :=
  fun _ _ => ⟨rfl, rfl, [], rfl, h⟩

theorem Collects.bind {mid : α → List Item → Prop} {post : β → List Item → Prop}
    {collection : Collection α} {next : α → Collection β} {commands later : List String}
    (h : Collects mid collection commands)
    (hnext : ∀ value items, mid value items →
      Collects (fun result others => post result (items ++ others)) (next value) later) :
    Collects post (collection >>= next) (commands ++ later) := by
  intro noted client
  rw [List.map_append, StateT.run_bind, StateT.run_bind]
  refine (h noted client).bind fun outcome ⟨hsettings, news, hnews, hmid⟩ => ?_
  obtain ⟨⟨value, noted'⟩, after⟩ := outcome
  obtain rfl : noted' = noted.noteAll news := hnews
  have hlater := hnext value _ hmid (noted.noteAll news) after
  rw [Client.call_congr hsettings, hsettings] at hlater
  refine hlater.imp fun result ⟨hkept, others, hothers, hpost⟩ => ?_
  rw [← Failures.noteAll_append] at hothers
  rw [← List.map_append] at hpost
  exact ⟨hkept, news ++ others, hothers, hpost⟩

/-- What the client does notes no failures. -/
theorem Collects.ofSends {post : α → Prop} {action : Client.Action α} {commands : List String}
    (h : Client.Sends post action commands) :
    Collects (fun value items => items = [] ∧ post value) (liftM action) commands := by
  intro noted client
  have hlift : (((liftM action : Collection α).run noted).run client) =
      ((action.run client).bind fun outcome => .done ((outcome.1, noted), outcome.2)) := rfl
  rw [hlift, ← List.append_nil (commands.map _)]
  refine (h client).bind fun outcome ⟨hsettings, hpost⟩ => ?_
  exact ⟨rfl, hsettings, [], rfl, rfl, hpost⟩

/-- A value that is not there has been noted. -/
theorem check_collects (item : Item) (result : Except Error α) :
    Collects (fun value items => value = result.toOption ∧ items = missing item value.isNone)
      (check item result) [] := by
  intro noted client
  cases result with
  | ok value => exact ⟨rfl, rfl, [], rfl, rfl, rfl⟩
  | error cause => exact ⟨rfl, rfl, [(item, cause)], rfl, rfl, rfl⟩

theorem checked_collects (item : Item) {action : Client.Action (Except Error α)}
    {commands : List String} (h : Client.Sends (fun _ => True) action commands) :
    Collects (fun value items => items = missing item value.isNone)
      (do check item (← action)) commands := by
  rw [← List.append_nil commands]
  refine (Collects.ofSends h).bind fun result items hitems => ?_
  obtain ⟨rfl, -⟩ := hitems
  exact (check_collects item result).imp fun value items hvalue => hvalue.2

theorem number_collects {item : Item} (h : item.kind = .number) :
    Collects (fun value items => items = missing item value.isNone) (number item)
      [item.command] :=
  checked_collects item (Client.fetchNumber_sends h)

theorem text_collects (item : Item) :
    Collects (fun value items => items = missing item value.isNone) (text item)
      [item.command] :=
  checked_collects item (Client.fetchText_sends item)

/-- What is made of a text is noted if it fails, and not noted if there is no text. -/
theorem derived_collects (item : Item) (source : Option String)
    (decode : String → Except Error α) :
    Collects (fun value items => items = missing item (source.isSome && value.isNone) ∧
        value = source.bind fun s => (decode s).toOption)
      (match source with
        | some s => check item (decode s)
        | none => pure none) [] := by
  cases source with
  | none => exact .pure ⟨rfl, rfl⟩
  | some s =>
    refine (check_collects item (decode s)).imp fun value items hvalue => ?_
    exact ⟨by simpa using hvalue.2, hvalue.1⟩

theorem mapM_check_collects (item : β → Item) (result : β → Except Error α) (places : List β) :
    Collects (fun values items => values = places.map (fun place => (result place).toOption) ∧
        items = (places.filter fun place => (result place).toOption.isNone).map item)
      (places.mapM fun place => check (item place) (result place)) [] := by
  induction places with
  | nil => exact .pure ⟨rfl, rfl⟩
  | cons place places ih =>
    rw [List.mapM_cons]
    refine (check_collects (item place) (result place)).bind fun value first hvalue => ?_
    refine ih.bind fun values others hvalues => .pure ?_
    obtain ⟨rfl, rfl⟩ := hvalue
    obtain ⟨rfl, rfl⟩ := hvalues
    refine ⟨rfl, ?_⟩
    rw [List.append_nil, List.filter_cons]
    cases (result place).toOption.isNone <;> rfl

/-- What was obtained for items of one command: for each of them what its query makes of a parameter
that is there, or nothing for any of them. -/
def Obtained (items : List Item) (values : Item → Option Value) : Prop :=
  (∀ item ∈ items, ∃ p : Parameter, p.isEmpty = false ∧
    values item = (item.query.decode p).toOption) ∨
  ∀ item ∈ items, values item = none

theorem Obtained.texts {items : List Item} {values : Item → Option Value}
    (h : Obtained items values)
    (hplain : ∀ item ∈ items, item.query.decoding = .plain ∧ item.query.kind = .text) :
    (∀ item ∈ items, ∃ s, values item = some (.text s)) ∨ ∀ item ∈ items, values item = none := by
  refine h.imp_left fun hdecoded item hitem => ?_
  obtain ⟨p, hp, hvalue⟩ := hdecoded item hitem
  obtain ⟨s, hs⟩ := Query.text_of_decode (hplain item hitem).1 (hplain item hitem).2 hp
  exact ⟨s, by rw [hvalue, hs]; rfl⟩

/-- A number that was obtained tells whether something is on. -/
theorem Obtained.isNone_flag {items : List Item} {values : Item → Option Value}
    (h : Obtained items values) {item : Item} (hitem : item ∈ items)
    (hdecoding : item.query.decoding = .plain) (hkind : item.query.kind = .number) :
    (flag (values item)).isNone = (values item).isNone := by
  obtain hdecoded | hnone := h
  · obtain ⟨p, -, hvalue⟩ := hdecoded item hitem
    rw [hvalue]
    cases hresult : item.query.decode p with
    | error cause => rfl
    | ok value =>
      obtain ⟨n, rfl⟩ := Query.number_of_decode hdecoding hkind hresult
      rfl
  · rw [hnone item hitem]
    rfl

theorem together_collects {items : List Item} (h : Item.ShareCommand items) (command : String)
    (hcommand : ∀ item ∈ items, item.command = command) :
    Collects (fun found news => ∃ values, Obtained items values ∧ found = items.map values ∧
        news = items.filter fun item => (values item).isNone)
      (together items) [command] := by
  refine (Collects.ofSends (Client.fetchAll_sends h hcommand)).bind fun result none hresult => ?_
  obtain ⟨rfl, hvalues⟩ := hresult
  cases result with
  | error cause =>
    refine (mapM_check_collects id (fun _ => (.error cause : Except Error Value)) items).imp ?_
    rintro found news ⟨rfl, rfl⟩
    exact ⟨fun _ => none, Or.inr fun _ _ => rfl, rfl, List.map_id _⟩
  | ok results =>
    obtain ⟨slots, rfl, hdecoded⟩ := hvalues results rfl
    refine (mapM_check_collects Prod.fst Prod.snd
      (items.zip (items.map fun item => item.query.value slots))).imp ?_
    rintro found news ⟨rfl, rfl⟩
    refine ⟨fun item => (item.query.value slots).toOption, Or.inl fun item hitem => ?_, ?_, ?_⟩
    · obtain ⟨p, hp, hvalue⟩ := hdecoded item hitem
      exact ⟨p, hp, congrArg Except.toOption hvalue⟩
    · rw [← List.map_prod_left_eq_zip, List.map_map]
      rfl
    · rw [← List.map_prod_left_eq_zip, List.filter_map, List.map_map]
      exact List.map_id _

end Collection

/-- What the report is to hold, in the order in which it is asked for. The country code is not asked
for, but made of the operator as soon as that is known. -/
def requested : List Item :=
  [.currentBand, .supportedBands, .ipAddress, .ueMode, .operator, .countryCode, .cellId, .areaCode,
    .lteMode, .nbiotMode, .gpsMode, .uiccState, .iccid, .firmware, .battery]

/-- Whether the value of an item is missing from a report. -/
def lacks (survey : Survey) : Item → Bool
  | .currentBand => survey.network.currentBand.isNone
  | .supportedBands => survey.network.supportedBands.isNone
  | .ipAddress => survey.network.ipAddress.isNone
  | .ueMode => survey.network.ueMode.isNone
  | .operator => survey.network.operator.isNone
  | .countryCode => survey.network.countryCode.isNone
  | .networkCode => survey.network.networkCode.isNone
  | .cellId => survey.network.cellId.isNone
  | .areaCode => survey.network.areaCode.isNone
  | .lteMode => survey.network.lteMode.isNone
  | .nbiotMode => survey.network.nbiotMode.isNone
  | .gpsMode => survey.network.gpsMode.isNone
  | .uiccState => survey.sim.uiccState.isNone
  | .iccid => survey.sim.iccid.isNone
  | .firmware => survey.device.firmware.isNone
  | .battery => survey.device.battery.isNone
  | .rsrp | .temperature | .rssi => true

/-- Whether a failure is noted for an item that is asked for. Without an operator that is what is
noted, and not its country code as well. -/
def notes (survey : Survey) : Item → Bool
  | .countryCode => survey.network.operator.isSome && survey.lacks .countryCode
  | item => survey.lacks item

/-- The failures account for everything that is missing from a report. -/
structure Accounts (survey : Survey) (failures : Failures) : Prop where
  /-- A value that was asked for is missing if and only if that has been noted. -/
  missing_iff : ∀ item ∈ requested, item ≠ .countryCode →
    (survey.lacks item = true ↔ item ∈ failures.map Prod.fst)
  /-- The codes are both there or both missing, … -/
  codes : survey.lacks .countryCode = survey.lacks .networkCode
  /-- … and missing if and only if a failure is noted for the operator or for the country code, … -/
  codes_missing_iff : survey.lacks .countryCode = true ↔
    .operator ∈ failures.map Prod.fst ∨ .countryCode ∈ failures.map Prod.fst
  /-- … which is never noted for both. -/
  codes_once : ¬(.operator ∈ failures.map Prod.fst ∧ .countryCode ∈ failures.map Prod.fst)
  nodup : (failures.map Prod.fst).Nodup
  /-- There is always room for another failure, so that none of them is lost. -/
  room : failures.length < Item.all.length
  order : (failures.map Prod.fst).Sublist requested

theorem filter_cons_eq_missing (holds : Item → Bool) (item : Item) (items : List Item) :
    (item :: items).filter holds = missing item (holds item) ++ items.filter holds := by
  rw [List.filter_cons]
  cases holds item <;> rfl

open Collection in
/-- The texts that tell the place are both there, or both missing and noted as such. So nothing is
noted twice, and the cell comes before the area. -/
theorem missing_place {values : Item → Option Value} (h : Obtained [.cellId, .areaCode] values)
    {cellId areaCode : Option UInt32}
    (hcellId : (values .cellId).bind Value.text? = none → cellId = none)
    (hareaCode : (values .areaCode).bind Value.text? = none → areaCode = none)
    (later : List Item) :
    [.cellId, .areaCode].filter (fun item => (values item).isNone) ++
        (missing .cellId (((values .cellId).bind Value.text?).isSome && cellId.isNone) ++
          (missing .areaCode (((values .areaCode).bind Value.text?).isSome && areaCode.isNone) ++
            later)) =
      missing .cellId cellId.isNone ++ (missing .areaCode areaCode.isNone ++ later) := by
  have hplain : ∀ item ∈ [Item.cellId, Item.areaCode],
      item.query.decoding = .plain ∧ item.query.kind = .text := by decide
  obtain htexts | hnone := h.texts hplain
  · obtain ⟨s, hs⟩ := htexts .cellId (by decide)
    obtain ⟨t, ht⟩ := htexts .areaCode (by decide)
    simp [hs, ht, Value.text?]
  · have hs := hnone .cellId (by decide)
    have ht := hnone .areaCode (by decide)
    have hcell : cellId = none := hcellId (by rw [hs]; rfl)
    have harea : areaCode = none := hareaCode (by rw [ht]; rfl)
    simp [hs, ht, hcell, harea, missing]

open Collection in
theorem missing_modes {values : Item → Option Value}
    (h : Obtained [.lteMode, .nbiotMode, .gpsMode] values) (later : List Item) :
    [.lteMode, .nbiotMode, .gpsMode].filter (fun item => (values item).isNone) ++ later =
      missing .lteMode (flag (values .lteMode)).isNone ++
        (missing .nbiotMode (flag (values .nbiotMode)).isNone ++
          (missing .gpsMode (flag (values .gpsMode)).isNone ++ later)) := by
  rw [h.isNone_flag (by decide) rfl rfl, h.isNone_flag (by decide) rfl rfl,
    h.isNone_flag (by decide) rfl rfl]
  simp only [filter_cons_eq_missing, List.filter_nil, List.append_nil, List.append_assoc]

/-- The codes that the operator of a report is made of. -/
def Network.codes (network : Network) : Option Code.NetworkCode :=
  network.operator.bind fun s => (Code.NetworkCode.ofOperator s).toOption

open Collection in
theorem collect_collects :
    Collects (fun survey items => items = requested.filter survey.notes ∧
        survey.network.countryCode = survey.network.codes.map (·.country) ∧
        survey.network.networkCode = survey.network.codes.map (·.network))
      collect (requested.map Item.command).eraseDups := by
  have hplace : Item.ShareCommand [.cellId, .areaCode] := by
    simp [Item.ShareCommand, Item.command, Item.query]
  have hmodes : Item.ShareCommand [.lteMode, .nbiotMode, .gpsMode] := by
    simp [Item.ShareCommand, Item.command, Item.query]
  have hget : Client.Sends (fun _ => True) (get : Client.Action Client) [] :=
    fun _ => ⟨rfl, rfl, trivial⟩
  unfold collect
  -- one rule for each line of the collection
  refine (Collects.ofSends hget).bind fun client _ hclient => ?_
  refine (number_collects rfl).bind fun currentBand _ hcurrentBand => ?_
  refine (text_collects _).bind fun supportedBands _ hsupportedBands => ?_
  refine (text_collects _).bind fun ipAddress _ hipAddress => ?_
  refine (number_collects rfl).bind fun ueMode _ hueMode => ?_
  refine (text_collects _).bind fun operator _ hoperator => ?_
  refine (derived_collects .countryCode operator Code.NetworkCode.ofOperator).bind
    fun codes _ hcodes => ?_
  refine (together_collects hplace "AT+CEREG?" (by decide)).bind fun place _ hplaced => ?_
  refine (derived_collects .cellId (place[0]?.join.bind Value.text?) _).bind
    fun cellId _ hcellId => ?_
  refine (derived_collects .areaCode (place[1]?.join.bind Value.text?) _).bind
    fun areaCode _ hareaCode => ?_
  refine (together_collects hmodes "AT%XSYSTEMMODE?" (by decide)).bind fun modes _ hmoded => ?_
  refine (number_collects rfl).bind fun uiccState _ huiccState => ?_
  refine (text_collects _).bind fun iccid _ hiccid => ?_
  refine (text_collects _).bind fun firmware _ hfirmware => ?_
  refine (number_collects rfl).bind fun battery _ hbattery => .pure ?_
  obtain ⟨rfl, -⟩ := hclient
  obtain ⟨rfl, rfl⟩ := hcodes
  obtain ⟨placed, hplaced, rfl, rfl⟩ := hplaced
  obtain ⟨rfl, hcellId⟩ := hcellId
  obtain ⟨rfl, hareaCode⟩ := hareaCode
  obtain ⟨moded, hmoded, rfl, rfl⟩ := hmoded
  subst hcurrentBand hsupportedBands hipAddress hueMode hoperator huiccState hiccid hfirmware
    hbattery
  refine ⟨?_, rfl, rfl⟩
  -- what was noted on the way, one item after the other, is what the filter leaves
  rw [missing_modes hmoded]
  simp only [List.map_cons, List.map_nil, List.getElem?_cons_zero, List.getElem?_cons_succ,
    Option.join_some] at hcellId hareaCode ⊢
  rw [missing_place hplaced (fun hnone => by rw [hcellId, hnone]; rfl)
    (fun hnone => by rw [hareaCode, hnone]; rfl)]
  simp only [requested, filter_cons_eq_missing, List.filter_nil, notes, lacks,
    Option.isNone_map, List.nil_append]

theorem notes_of_ne {item : Item} (h : item ≠ .countryCode) (survey : Survey) :
    survey.notes item = survey.lacks item := by
  cases item with
  | countryCode => exact absurd rfl h
  | _ => rfl

theorem length_le_requested {failures : Failures} {holds : Item → Bool}
    (h : failures.map Prod.fst = requested.filter holds) : failures.length ≤ requested.length := by
  rw [← List.length_map, h]
  exact List.length_filter_le holds requested

/-- To note in order whatever is missing accounts for it. -/
theorem Accounts.ofItems {survey : Survey} {failures : Failures}
    (hitems : failures.map Prod.fst = requested.filter survey.notes)
    (hcountry : survey.network.countryCode = survey.network.codes.map (·.country))
    (hnetwork : survey.network.networkCode = survey.network.codes.map (·.network)) :
    Accounts survey failures where
  missing_iff item hitem hne := by
    rw [hitems, List.mem_filter, notes_of_ne hne]
    exact ⟨fun hlacks => ⟨hitem, hlacks⟩, And.right⟩
  codes := by simp [lacks, hcountry, hnetwork]
  codes_missing_iff := by
    rw [hitems, List.mem_filter, List.mem_filter]
    cases h : survey.network.operator with
    | none => simp [requested, notes, lacks, hcountry, Network.codes, h]
    | some s => simp [requested, notes, lacks, h]
  codes_once := by
    rw [hitems, List.mem_filter, List.mem_filter]
    rintro ⟨⟨-, hmissing⟩, -, hcode⟩
    cases h : survey.network.operator <;> simp [notes, lacks, h] at hmissing hcode
  nodup := by
    rw [hitems]
    exact List.filter_sublist.nodup (by decide)
  room := Nat.lt_of_le_of_lt (length_le_requested hitems) (by decide)
  order := by
    rw [hitems]
    exact List.filter_sublist

/-- To fetch a report is to make one call for each command, in order, and whatever comes of them the
failures account for what is missing from it: with every modem that is given by its answers, and on
every station, whatever transport, time and others do. -/
theorem fetch_accounts (client : Client) :
    (fetch.run client).Makes (fun outcome => Accounts outcome.1.1 outcome.1.2)
        ((requested.map Item.command).eraseDups.map fun command =>
          client.call command Limits.response) ∧
      (∀ {σ : Type} (answer : Call → σ → Exchange.Result × σ) (modem : σ),
        let outcome := ((fetch.run client).run answer modem).1
        Accounts outcome.1.1 outcome.1.2) ∧
      ∀ {τ : Type} [Transport τ] (changes : List (Station τ → Station τ)) (station : Station τ)
        (survey : Survey) (failures : Failures) (after : Client),
        (Course.amid Conversation.step changes { program := fetch.run client } station).1 =
            .finished ((survey, failures), after) →
          Accounts survey failures := by
  have hmakes : (fetch.run client).Makes (fun outcome => Accounts outcome.1.1 outcome.1.2)
      ((requested.map Item.command).eraseDups.map fun command =>
        client.call command Limits.response) := by
    refine (collect_collects [] client).imp
      fun outcome ⟨_, news, hnews, hitems, hcountry, hnetwork⟩ => ?_
    have hlength : news.length ≤ requested.length := length_le_requested hitems
    have hroom : ([] : Failures).length + news.length ≤ Item.all.length := by
      rw [List.length_nil, Nat.zero_add]
      exact Nat.le_trans hlength (by decide)
    rw [hnews, Failures.noteAll_of_length hroom]
    exact .ofItems hitems hcountry hnetwork
  exact ⟨hmakes, fun answer modem => hmakes.run answer modem,
    fun changes station survey failures after hfinished =>
      Conversation.post_of_finished hmakes hfinished⟩

/-- A modem that knows its operator by something that is no number, and nothing else. -/
def lettersModem : Bench.Modem where
  rules :=
    [{ request := Octets.ofText "AT+COPS?"
       replies := [[{ content := .data (Octets.ofText "+COPS: 0,2,\"24x01\",7\r\nOK\r\n") }]] }]

set_option maxRecDepth 8000 in
/-- Then the report holds the operator, and a failure is noted for its country code. -/
theorem fetch_accounts_letters :
    let client : Client := { settings := {} }
    let station : Station Bench.Modem := { transport := lettersModem }
    let survey : Survey := { network := { operator := some "24x01" } }
    ∃ failures after, (Course.amid Conversation.step (List.replicate 55 id)
        { program := fetch.run client } station).1 = .finished ((survey, failures), after) ∧
      (.countryCode, .invalidArgument) ∈ failures ∧ Accounts survey failures := by
  intro client station survey
  have hrun : (Course.amid Conversation.step (List.replicate 55 id)
      { program := fetch.run client } station).1.result?.map Prod.fst =
        some (survey, requested.filter (fun item => item != .operator) |>.map fun item =>
          (item, if item = .countryCode then .invalidArgument else .transport)) := by cbv
  obtain ⟨⟨outcome, after⟩, hresult, houtcome⟩ := Option.map_eq_some_iff.mp hrun
  obtain rfl : outcome = _ := houtcome
  have hfinished := Progress.eq_finished_of_result? hresult
  exact ⟨_, after, hfinished, by decide,
    (fetch_accounts client).2.2 _ station survey _ after hfinished⟩

end Survey

end CellModem
