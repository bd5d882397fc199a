import CellModem.Proofs.Profile

/-!
The report decodes what the modem renders. If each command of a pass is replied to with its line,
every item finds its value in it, nothing is noted as missing, and the report holds these values
and what was made of them.
-/

namespace CellModem

namespace Client

variable {α β : Type} {line : String → Octets} {settings : Settings}

/-- As long as each call is told the line of its command, an action sends these commands and ends as
said. The client keeps these settings and all its slots. -/
def Finds (line : String → Octets) (settings : Settings) (post : α → Prop) (action : Action α)
    (commands : List String) : Prop :=
  ∀ client : Client, client.Roomy → client.settings = settings →
    (action.run client).Leads (fun call result => result = .ok (line call.command))
      (fun outcome => post outcome.1 ∧ outcome.2.Roomy ∧ outcome.2.settings = settings)
      (commands.map fun command => client.call command Limits.response)

theorem Finds.pure {post : α → Prop} {value : α} (h : post value) :
    Finds line settings post (Pure.pure value : Action α) [] :=
  fun _ hroomy hsettings => ⟨rfl, h, hroomy, hsettings⟩

theorem Finds.bind {mid : α → Prop} {post : β → Prop} {action : Action α} {next : α → Action β}
    {commands later : List String} (h : Finds line settings mid action commands)
    (hnext : ∀ value, mid value → Finds line settings post (next value) later) :
    Finds line settings post (action >>= next) (commands ++ later) := by
  intro client hroomy hsettings
  rw [List.map_append, StateT.run_bind]
  refine (h client hroomy hsettings).bind ?_
  rintro ⟨value, after⟩ ⟨hmid, hafter, hkept⟩
  have hlater := hnext value hmid after hafter hkept
  rw [call_congr (hkept.trans hsettings.symm)] at hlater
  exact hlater

theorem get_finds : Finds line settings (fun client => client.settings = settings)
    (get : Action Client) [] :=
  fun _ hroomy hsettings => ⟨rfl, hsettings, hroomy, hsettings⟩

theorem fetch_finds {item : Item} {value : Value} (h : item.Tells (line item.command) value) :
    Finds line settings (· = .ok value) (fetch item) [item.command] := by
  intro client hroomy hsettings
  rw [fetch_run]
  refine ⟨[], rfl, ?_⟩
  rintro result rfl
  exact ⟨rfl, (conclude_eq_ok_iff hroomy item _ value).mpr h, hroomy.conclude _ _ _,
    (client.settings_conclude _ _ _).trans hsettings⟩

theorem fetchNumber_finds {item : Item} (hkind : item.kind = .number) {n : UInt16}
    (h : item.Tells (line item.command) (.number n)) :
    Finds line settings (· = .ok n) (fetchNumber item) [item.command] := by
  unfold fetchNumber
  rw [if_neg (not_not_intro hkind)]
  refine (fetch_finds h).bind ?_
  rintro result rfl
  exact .pure rfl

theorem fetchText_finds {item : Item} {text : String}
    (h : item.Tells (line item.command) (.text text)) :
    Finds line settings (· = .ok text) (fetchText item) [item.command] := by
  refine (fetch_finds h).bind ?_
  rintro result rfl
  exact .pure rfl

/-- What each of the items finds alone, they all find together, if none wants more parameters than
the others. -/
theorem conclude_all {query : Query} {items : List Item} (h : Serves query items)
    (hitems : items ≠ [])
    (hcount : ∀ item ∈ items, ∀ other ∈ items, other.query.count ≤ item.query.count)
    {client : Client} {result : Exchange.Result} {value : Item → Value}
    (halone : ∀ item ∈ items,
      (client.conclude item.query item.query.value result).1 = .ok (value item)) :
    (client.conclude query (fun slots => .ok (items.map fun item => item.query.value slots))
      result).1 = .ok (items.map fun item => .ok (value item)) := by
  obtain ⟨first, hfirst⟩ := List.exists_mem_of_ne_nil items hitems
  have hmatches (item : Item) (hitem : item ∈ items) :=
    matches_conclude h hitem client result
  cases hfound : (client.conclude query
      (fun slots => .ok (items.map fun item => item.query.value slots)) result).1 with
  | error cause =>
    have hfails := (hmatches first hfirst).2 cause hfound (hcount first hfirst)
    have hvalue := halone first hfirst
    rw [hfails] at hvalue
    cases hvalue
  | ok values =>
    have hlength := ((hmatches first hfirst).1 values hfound).1
    refine congrArg Except.ok (List.ext_getElem? fun place => ?_)
    rw [List.getElem?_map]
    cases hplace : items[place]? with
    | none =>
      rw [List.getElem?_eq_none_iff] at hplace
      exact List.getElem?_eq_none_iff.mpr (hlength ▸ hplace)
    | some item =>
      have hitem := List.mem_of_getElem? hplace
      rw [((hmatches item hitem).1 values hfound).2 place hplace, halone item hitem]
      rfl

theorem fetchAll_finds {items : List Item} (h : Item.ShareCommand items) {command : String}
    (hcommand : ∀ item ∈ items, item.command = command)
    (hcount : ∀ item ∈ items, ∀ other ∈ items, other.query.count ≤ item.query.count)
    {value : Item → Value} (htells : ∀ item ∈ items, item.Tells (line command) (value item)) :
    Finds line settings (· = .ok (items.map fun item => .ok (value item))) (fetchAll items)
      [command] := by
  obtain ⟨query, hquery, hserves⟩ := sharedQuery?_of_share h
  obtain ⟨first, hfirst⟩ := List.exists_mem_of_ne_nil items h.1
  have hsent : query.command = command :=
    (hserves.command first hfirst).symm.trans (hcommand first hfirst)
  intro client hroomy hsettings
  rw [fetchAll_run hquery, hsent]
  refine ⟨[], rfl, ?_⟩
  rintro result rfl
  have halone (item : Item) (hitem : item ∈ items) :
      (client.conclude item.query item.query.value (.ok (line command))).1 = .ok (value item) :=
    (conclude_eq_ok_iff hroomy item _ _).mpr (htells item hitem)
  exact ⟨rfl, conclude_all hserves h.1 hcount halone, hroomy.conclude _ _ _,
    (client.settings_conclude _ _ _).trans hsettings⟩

end Client

namespace Survey

namespace Collection

variable {α β : Type} {line : String → Octets} {settings : Settings}

/-- As long as each call is told the line of its command, a collection sends these commands, ends as
said and notes nothing. -/
def Finds (line : String → Octets) (settings : Settings) (post : α → Prop)
    (collection : Collection α) (commands : List String) : Prop :=
  ∀ noted, Client.Finds line settings (fun outcome => post outcome.1 ∧ outcome.2 = noted)
    (collection.run noted) commands

theorem Finds.pure {post : α → Prop} {value : α} (h : post value) :
    Finds line settings post (Pure.pure value : Collection α) [] :=
  fun _ => .pure ⟨h, rfl⟩

theorem Finds.bind {mid : α → Prop} {post : β → Prop} {collection : Collection α}
    {next : α → Collection β} {commands later : List String}
    (h : Finds line settings mid collection commands)
    (hnext : ∀ value, mid value → Finds line settings post (next value) later) :
    Finds line settings post (collection >>= next) (commands ++ later) := by
  intro noted
  rw [StateT.run_bind]
  refine (h noted).bind ?_
  rintro ⟨value, noted⟩ ⟨hmid, rfl⟩
  exact hnext value hmid _

theorem Finds.lift {post : α → Prop} {action : Client.Action α} {commands : List String}
    (h : Client.Finds line settings post action commands) :
    Finds line settings post (liftM action) commands := by
  intro noted
  have hlift : (liftM action : Collection α).run noted =
      action >>= fun value => Pure.pure (value, noted) := rfl
  rw [hlift, ← List.append_nil commands]
  exact h.bind fun value hvalue => .pure ⟨hvalue, rfl⟩

theorem number_finds {item : Item} (hkind : item.kind = .number) {n : UInt16}
    (h : item.Tells (line item.command) (.number n)) :
    Finds line settings (· = some n) (number item) [item.command] := by
  refine (Finds.lift (Client.fetchNumber_finds hkind h)).bind ?_
  rintro result rfl
  exact .pure rfl

theorem text_finds {item : Item} {s : String}
    (h : item.Tells (line item.command) (.text s)) :
    Finds line settings (· = some s) (text item) [item.command] := by
  refine (Finds.lift (Client.fetchText_finds h)).bind ?_
  rintro result rfl
  exact .pure rfl

/-- Values that are there are kept, one after the other. -/
theorem mapM_check_finds (value : Item → α) (items : List Item) :
    Finds line settings (· = items.map fun item => some (value item))
      ((items.zip (items.map fun item => (.ok (value item) : Except Error α))).mapM
        fun (item, result) => check item result) [] := by
  induction items with
  | nil => exact .pure rfl
  | cons item items ih =>
    simp only [List.map_cons, List.zip_cons_cons, List.mapM_cons]
    have hkept : Finds line settings (· = some (value item))
        (check item (.ok (value item))) [] := .pure rfl
    refine hkept.bind ?_
    rintro first rfl
    refine ih.bind ?_
    rintro others rfl
    exact .pure rfl

theorem together_finds (value : Item → Value) {items : List Item} (h : Item.ShareCommand items)
    {command : String} (hcommand : ∀ item ∈ items, item.command = command)
    (hcount : ∀ item ∈ items, ∀ other ∈ items, other.query.count ≤ item.query.count)
    (htells : ∀ item ∈ items, item.Tells (line command) (value item)) :
    Finds line settings (· = items.map fun item => some (value item)) (together items)
      [command] := by
  refine (Finds.lift (Client.fetchAll_finds h hcommand hcount htells)).bind ?_
  rintro result rfl
  exact mapM_check_finds value items

theorem networkCode_finds (operator : Profile.OperatorName) :
    Finds line settings (· = some ⟨operator.country, operator.network⟩)
      (networkCode (some (String.ofList operator.text))) [] := by
  rw [networkCode, operator.ofOperator_text]
  exact .pure rfl

theorem hexWord_finds (item : Item) (numeral : Profile.HexNumeral) :
    Finds line settings (· = some numeral.value)
      (hexWord item (some (.text (String.ofList numeral.text)))) [] := by
  have hword : hexWord item (some (.text (String.ofList numeral.text))) =
      check item ((Code.hexWord (String.ofList numeral.text)).mapError .ofHexFault) := rfl
  rw [hword, numeral.hexWord_text]
  exact .pure rfl

end Collection

end Survey

namespace Profile

/-- The report on what a modem has to report: with the codes of its operator, the numbers that the
hexadecimal texts stand for, and whether a mode is on. -/
def survey (profile : Profile) (settings : Settings) : Survey where
  network :=
    { currentBand := some profile.currentBand
      supportedBands := some (String.ofList ('(' :: (profile.supportedBands.inner ++ [')'])))
      areaCode := some profile.areaCode.value
      countryCode := some profile.operator.country
      networkCode := some profile.operator.network
      ipAddress := some (String.ofList profile.ipAddress.text)
      ueMode := some profile.ueMode
      cellId := some profile.cellId.value
      lteMode := some (profile.lteMode != 0)
      nbiotMode := some (profile.nbiotMode != 0)
      gpsMode := some (profile.gpsMode != 0)
      operator := some (String.ofList profile.operator.text) }
  sim :=
    { uiccState := some profile.uiccState
      iccid := some (String.ofList profile.iccid.text) }
  device :=
    { firmware := some (String.ofList profile.firmware.text)
      battery := some profile.battery
      board := settings.board
      appVersion := settings.appVersion
      appName := settings.appName }

end Profile

namespace Survey

open Collection in
theorem collect_finds (profile : Profile) (settings : Settings) :
    Finds profile.line settings (· = profile.survey settings) collect commands := by
  have hplace : Item.ShareCommand [.cellId, .areaCode] := by
    simp [Item.ShareCommand, Item.command, Item.query]
  have hmodes : Item.ShareCommand [.lteMode, .nbiotMode, .gpsMode] := by
    simp [Item.ShareCommand, Item.command, Item.query]
  let value (item : Item) : Value := (profile.value? item).getD (.text "")
  have hplaced : ∀ item ∈ [Item.cellId, .areaCode],
      item.Tells (profile.line "AT+CEREG?") (value item) := by
    simp only [List.forall_mem_cons, List.not_mem_nil, false_implies, implies_true, and_true]
    exact ⟨profile.tells rfl, profile.tells rfl⟩
  have hmoded : ∀ item ∈ [Item.lteMode, .nbiotMode, .gpsMode],
      item.Tells (profile.line "AT%XSYSTEMMODE?") (value item) := by
    simp only [List.forall_mem_cons, List.not_mem_nil, false_implies, implies_true, and_true]
    exact ⟨profile.tells rfl, profile.tells rfl, profile.tells rfl⟩
  unfold collect
  -- one rule for each line of the collection
  refine (Finds.lift Client.get_finds).bind fun client hclient => ?_
  refine (number_finds rfl (profile.tells rfl)).bind ?_
  rintro currentBand rfl
  refine (text_finds (profile.tells rfl)).bind ?_
  rintro supportedBands rfl
  refine (text_finds (profile.tells rfl)).bind ?_
  rintro ipAddress rfl
  refine (number_finds rfl (profile.tells rfl)).bind ?_
  rintro ueMode rfl
  refine (text_finds (profile.tells rfl)).bind ?_
  rintro operator rfl
  refine (networkCode_finds profile.operator).bind ?_
  rintro codes rfl
  refine (together_finds value hplace (by decide) (by decide) hplaced).bind ?_
  rintro place rfl
  refine (hexWord_finds .cellId profile.cellId).bind ?_
  rintro cellId rfl
  refine (hexWord_finds .areaCode profile.areaCode).bind ?_
  rintro areaCode rfl
  refine (together_finds value hmodes (by decide) (by decide) hmoded).bind ?_
  rintro modes rfl
  refine (number_finds rfl (profile.tells rfl)).bind ?_
  rintro uiccState rfl
  refine (text_finds (profile.tells rfl)).bind ?_
  rintro iccid rfl
  refine (text_finds (profile.tells rfl)).bind ?_
  rintro firmware rfl
  refine (number_finds rfl (profile.tells rfl)).bind ?_
  rintro battery rfl
  rw [hclient]
  exact .pure rfl

end Survey

namespace Profile

/-- The requests of a pass, each with the bytes in which the modem replies to it. -/
def script (profile : Profile) (terminator : String) : List (Octets × Octets) :=
  profile.responses.map fun (command, line) =>
    (Octets.ofText command ++ Octets.ofText terminator, Octets.ofText (line ++ "\r\nOK\r\n"))

end Profile

namespace Survey

/-- The calls of a pass are those of the script. -/
theorem told_script (profile : Profile) {client : Client}
    (hterminator : ∀ command ∈ commands,
      command.utf8ByteSize + client.settings.terminator.utf8ByteSize ≤ Limits.request)
    {within : Millis} (hwithin : within ≤ client.settings.responseTimeout) :
    List.Forall₂ (fun call => Exchange.Scripted within (profile.line call.command) call)
      (commands.map fun command => client.call command Limits.response)
      (profile.script client.settings.terminator) := by
  have hending : Octets.ofText "\r\nOK\r\n" =
      Line.lineEnd ++ Octets.ofText "OK" ++ Line.lineEnd := by decide
  rw [← profile.map_fst_responses, List.map_map, Profile.script, List.forall₂_map_left_iff,
    List.forall₂_map_right_iff, List.forall₂_same]
  rintro ⟨command, line⟩ hresponse
  have hcommand : command ∈ commands := by
    rw [← profile.map_fst_responses]
    exact List.mem_map.mpr ⟨_, hresponse, rfl⟩
  have hline : profile.line command = Octets.ofText line := profile.line_of_mem _ hresponse
  obtain ⟨hsole, hshort⟩ := profile.passes hcommand
  refine ⟨request?_of_fits (hterminator command hcommand) _, ?_, hsole, hshort, hwithin⟩
  change Octets.ofText (line ++ "\r\nOK\r\n") = Line.response (profile.line command)
  rw [hline, Octets.ofText_append, hending, Line.response]
  simp only [List.append_assoc]

/-- If a modem replies in time to the commands of a pass, one after the other and each with its line
and `OK`, the pass ends without a failure, and with a report of exactly the values in these lines.
The replies may be cut into reads in any way. -/
theorem fetch_reports (profile : Profile) (client : Client) (hroomy : client.Roomy)
    (hterminator : ∀ command ∈ commands,
      command.utf8ByteSize + client.settings.terminator.utf8ByteSize ≤ Limits.request)
    {within : Millis} (hwithin : within ≤ client.settings.responseTimeout)
    {τ : Type} [Transport τ] (station : Station τ) (hunlocked : station.locked = false)
    (haligned : station.alignment = .aligned)
    (hreplies : RepliesInTurn within (profile.script client.settings.terminator) station.now []
      station.transport) :
    Course.Completes Conversation.step { program := fetch.run client } station
      fun outcome _ => outcome.1 = (profile.survey client.settings, []) := by
  have hleads := (collect_finds profile client.settings []) client hroomy rfl
  have htold := told_script profile hterminator hwithin
  have hawaits : Conversation.Awaits within (fun call => profile.line call.command)
      (commands.map fun command => client.call command Limits.response) station :=
    ⟨hunlocked, haligned, _, _, [], htold, Nat.le_refl _, Or.inl rfl, hreplies⟩
  refine (Conversation.completes_of_told hleads hawaits).imp ?_
  rintro ⟨⟨survey, failures⟩, after⟩ final ⟨⟨hsurvey, hfailures⟩, -⟩
  exact Prod.ext hsurvey hfailures

/-- A device in an LTE network, with satellite navigation switched on. -/
def trackerProfile : Profile where
  currentBand := 20
  supportedBands :=
    { inner := "1,2,3,4,12,13,20".toList, closed := by decide, whole := by decide
      fits := by decide }
  accessPoint :=
    { text := "telenor.iot".toList, closed := by decide, whole := by decide
      trimmed := by rintro c ⟨⟩; rfl, fits := by decide }
  ipAddress :=
    { text := "10.0.0.130".toList, closed := by decide, whole := by decide
      trimmed := by rintro c ⟨⟩; rfl, fits := by decide }
  ueMode := 2
  operator :=
    { country := 242, network := 1, countryDigits := [2, 4, 2], networkDigits := [0, 1]
      length_country := rfl, nonempty := by decide, short := by decide, country_eq := by decide
      network_eq := by decide }
  areaCode :=
    { value := 0x138, digits := [⟨0, false⟩, ⟨1, false⟩, ⟨3, false⟩, ⟨8, false⟩]
      nonempty := by decide, short := by decide, value_eq := by decide }
  cellId :=
    { value := 0x0101a0b3
      digits := [⟨0, false⟩, ⟨1, false⟩, ⟨0, false⟩, ⟨1, false⟩, ⟨10, true⟩, ⟨0, false⟩, ⟨11, true⟩,
        ⟨3, false⟩]
      nonempty := by simp, short := by decide, value_eq := by decide }
  lteMode := 1
  nbiotMode := 0
  gpsMode := 1
  preferredMode := 0
  uiccState := 1
  iccid :=
    { text := "890121436587092143F".toList, alphanumeric := List.all_eq_true.mp rfl
      short := by decide }
  firmware :=
    { text := "mfw_nrf9160_1.0.0".toList, name := List.all_eq_true.mp rfl, short := by decide
      not_numeral := ⟨'m', by decide, by decide⟩, plain := by unfold Line.Misleading; decide }
  battery := 3712

/-- The lines in which it replies to the commands of a pass. -/
def trackerResponses : List (String × String) :=
  [("AT%XCBAND", "%XCBAND: 20"),
    ("AT%XCBAND=?", "%XCBAND: (1,2,3,4,12,13,20)"),
    ("AT+CGDCONT?", "+CGDCONT: 0,\"IP\",\"telenor.iot\",\"10.0.0.130\",0,0"),
    ("AT+CEMODE?", "+CEMODE: 2"),
    ("AT+COPS?", "+COPS: 0,2,\"24201\",7"),
    ("AT+CEREG?", "+CEREG: 2,1,\"0138\",\"0101A0B3\",7"),
    ("AT%XSYSTEMMODE?", "%XSYSTEMMODE: 1,0,1,0"),
    ("AT%XSIM?", "%XSIM: 1"),
    ("AT+CRSM=176,12258,0,0,10", "+CRSM: 144,0,\"981012345678901234F\""),
    ("AT+CGMR", "mfw_nrf9160_1.0.0"),
    ("AT%XVBAT", "%XVBAT: 3712")]

/-- Each reply takes five milliseconds, and a read yields three bytes of it at most. -/
def trackerModem : Bench.Modem where
  rules := trackerResponses.map fun (command, line) =>
    { request := Octets.ofText command
      replies := [[{ content := .data (Octets.ofText (line ++ "\r\nOK\r\n")), delay := 5 }]] }
  chunk := some 3

theorem responses_trackerProfile : trackerProfile.responses = trackerResponses := by
  cbv

theorem repliesInTurn_trackerModem :
    RepliesInTurn 10 (trackerProfile.script "\r\n") 0 [] trackerModem := by
  have hrules : ∀ response ∈ trackerResponses,
      Bench.Modem.reply?
        (Bench.Modem.bareRequest (Octets.ofText response.1 ++ Octets.ofText "\r\n"))
        trackerModem.rules =
      some ([{ content := .data (Octets.ofText (response.2 ++ "\r\nOK\r\n")), delay := 5 }],
        trackerModem.rules) := by decide +kernel
  have hthere : ∀ response ∈ trackerResponses,
      Octets.ofText (response.2 ++ "\r\nOK\r\n") ≠ [] := by decide
  have hholds : Bench.Modem.Holds 0 trackerModem.rules [] trackerModem :=
    ⟨.nil, rfl, by decide, rfl, rfl⟩
  refine Bench.Modem.repliesInTurn ?_ (Nat.zero_le _) hholds
  rw [Profile.script, responses_trackerProfile]
  refine List.forall_mem_map.mpr fun response hresponse => ⟨_, hrules response hresponse, ?_⟩
  intro now
  have hcarries := Bench.Carries.cons (hthere response hresponse)
    (Nat.add_le_add_left (by decide : 5 ≤ 10) now) .nil
  rwa [List.append_nil] at hcarries

/-- What there is to report of it. -/
def trackerSurvey : Survey where
  network :=
    { currentBand := some 20, supportedBands := some "(1,2,3,4,12,13,20)", areaCode := some 0x138
      countryCode := some 242, networkCode := some 1, ipAddress := some "10.0.0.130"
      ueMode := some 2, cellId := some 0x0101a0b3, lteMode := some true, nbiotMode := some false
      gpsMode := some true, operator := some "24201" }
  sim := { uiccState := some 1, iccid := some "890121436587092143F" }
  device :=
    { firmware := some "mfw_nrf9160_1.0.0", battery := some 3712, board := "thingy91" }

theorem fetch_reports_tracker :
    let client : Client := { settings := { board := "thingy91" } }
    let station : Station Bench.Modem := { transport := trackerModem }
    client.Roomy ∧
      (∀ command ∈ commands,
        command.utf8ByteSize + client.settings.terminator.utf8ByteSize ≤ Limits.request) ∧
      10 ≤ client.settings.responseTimeout ∧ station.locked = false ∧
      station.alignment = .aligned ∧
      RepliesInTurn 10 (trackerProfile.script client.settings.terminator) station.now []
        station.transport ∧
      Course.Completes Conversation.step { program := fetch.run client } station
        fun outcome _ => outcome.1 = (trackerSurvey, []) := by
  intro client station
  have hroomy : client.Roomy := Client.roomy_new _
  have hterminator : ∀ command ∈ commands,
      command.utf8ByteSize + client.settings.terminator.utf8ByteSize ≤ Limits.request := by decide
  have hsurvey : trackerProfile.survey client.settings = trackerSurvey := by cbv
  refine ⟨hroomy, hterminator, by decide, rfl, rfl, repliesInTurn_trackerModem, ?_⟩
  rw [← hsurvey]
  exact fetch_reports trackerProfile client hroomy hterminator (by decide) station rfl rfl
    repliesInTurn_trackerModem

end Survey

end CellModem
