import Mathlib
import CellModem.Bench.Modem
import CellModem.Client
import CellModem.Proofs.Answer
import CellModem.Proofs.Dialogue

/-!
What a client does with the response to a query. To ask for one item and to ask for several of one
command is the same single call, and the response means the same for each item: more parameters are
read for several items, but each of them finds its own where it would find it alone. Whatever comes
of it, a client sends the same commands and keeps its settings.
-/

namespace CellModem

namespace Query

variable {limit : Nat}

theorem statement?_congr {query other : Query} (hcommand : query.command = other.command)
    (hprefixed : query.prefixed = other.prefixed) (response : List Char) :
    query.statement? response = other.statement? response := by
  unfold statement? responseName
  rw [hcommand, hprefixed]

/-- Queries read a response alike if they send the same command, agree on whether the response
repeats its name, and want the same number of parameters. -/
theorem load_congr {query other : Query} (hcommand : query.command = other.command)
    (hprefixed : query.prefixed = other.prefixed) (hcount : query.count = other.count)
    (response : List Char) (slots : Slots limit) :
    query.load response slots = other.load response slots := by
  unfold load
  rw [statement?_congr hcommand hprefixed, hcount]

/-- Whoever wants fewer parameters finds the same value. -/
theorem value_of_load {query other : Query} (hcommand : query.command = other.command)
    (hprefixed : query.prefixed = other.prefixed) (hcount : query.count ≤ other.count)
    (hindex : query.index < query.count) {response : List Char} {slots after : Slots limit}
    (hload : other.load response slots = (.ok (), after)) :
    ∃ own, query.load response slots = (.ok (), own) ∧ query.value own = query.value after := by
  obtain ⟨statement, params, hstatement, hlength, hpresents, hallocated, hroom, rfl⟩ :=
    load_eq_ok_iff_presents.mp hload
  have htaken : (params.take query.count).length = query.count := by
    rw [List.length_take, hlength, Nat.min_eq_left hcount]
  -- the fewer parameters are the first ones of the same statement, and the value is among them
  refine ⟨slots.fill (params.take query.count), ?_, ?_⟩
  · rw [load_eq_ok_iff_presents]
    exact ⟨statement, _, (statement?_congr hcommand hprefixed response).trans hstatement, htaken,
      hpresents.take query.count, hallocated, Nat.le_trans hcount hroom, rfl⟩
  · have htheirs : query.index < params.length := by omega
    have hown : query.index < (params.take query.count).length := by omega
    rw [value_fill slots htheirs, value_fill slots hown, List.getElem_take]

end Query

namespace Item

/-- There are items, and all of them send the same command. -/
def ShareCommand (items : List Item) : Prop :=
  items ≠ [] ∧ ∀ item ∈ items, ∀ other ∈ items, item.command = other.command

/-- Only the response that tells the firmware does not repeat a name. -/
theorem prefixed_eq (item : Item) : item.query.prefixed = decide (item.command ≠ "AT+CGMR") := by
  cases item <;> decide

theorem foldl_max_count_le_iff (items : List Item) (count bound : Nat) :
    items.foldl (fun count item => max count item.query.count) count ≤ bound ↔
      count ≤ bound ∧ ∀ item ∈ items, item.query.count ≤ bound := by
  induction items generalizing count with
  | nil => simp
  | cons item items ih => rw [List.foldl_cons, ih, Nat.max_le, List.forall_mem_cons, and_assoc]

end Item

namespace Client

/-- A query that serves these items: a response means to it what it means to each of them, and it
wants as many parameters as the most demanding. -/
structure Serves (query : Query) (items : List Item) : Prop where
  command : ∀ item ∈ items, item.query.command = query.command
  prefixed : ∀ item ∈ items, item.query.prefixed = query.prefixed
  count_le_iff : ∀ bound, query.count ≤ bound ↔ ∀ item ∈ items, item.query.count ≤ bound

theorem Serves.count_le {query : Query} {items : List Item} (h : Serves query items) {item : Item}
    (hitem : item ∈ items) : item.query.count ≤ query.count :=
  (h.count_le_iff query.count).mp (Nat.le_refl _) item hitem

theorem sharedQuery?_of_share {items : List Item} (h : Item.ShareCommand items) :
    ∃ query, sharedQuery? items = some query ∧ Serves query items := by
  obtain ⟨hitems, hshare⟩ := h
  cases items with
  | nil => exact absurd rfl hitems
  | cons first items =>
    have hfirst : ∀ item ∈ first :: items, item.command = first.command :=
      fun item hitem => hshare item hitem first List.mem_cons_self
    have hall : (items.all fun item => item.command == first.command) = true := by
      simpa using fun item hitem => hfirst item (List.mem_cons_of_mem first hitem)
    refine ⟨{ first.query with
        count := items.foldl (fun count item => max count item.query.count) first.query.count },
      if_pos hall, hfirst, fun item hitem => ?_, fun bound => ?_⟩
    · rw [item.prefixed_eq, hfirst item hitem, ← first.prefixed_eq]
    · rw [List.forall_mem_cons]
      exact Item.foldl_max_count_le_iff items first.query.count bound

theorem sharedQuery?_of_not_share {items : List Item} (h : ¬Item.ShareCommand items) :
    sharedQuery? items = none := by
  cases items with
  | nil => rfl
  | cons first items =>
    rw [sharedQuery?, if_neg]
    intro hall
    have hfirst : ∀ item ∈ first :: items, item.command = first.command := by
      simpa using hall
    exact h ⟨List.cons_ne_nil first items, fun item hitem other hother =>
      (hfirst item hitem).trans (hfirst other hother).symm⟩

/-- What becomes of a client that reads the response to a query. -/
def read (client : Client) (query : Query) : Exchange.Result → Except Error Unit × Client
  | .error cause => (.error cause, client)
  | .ok bytes =>
    match bytes.text? with
    | none => (.error .transport, client)
    | some response =>
      let (result, slots) := query.load response.toList client.slots
      (result, { client with slots })

/-- What it makes of the response, given what it does with the slots that hold it. -/
def conclude {α : Type} (client : Client) (query : Query)
    (value : Slots Limits.parameters → Except Error α) (result : Exchange.Result) :
    Except Error α × Client :=
  match client.read query result with
  | (.error cause, after) => (.error cause, after)
  | (.ok (), after) => (value after.slots, after)

theorem settings_read (client : Client) (query : Query) (result : Exchange.Result) :
    (client.read query result).2.settings = client.settings := by
  unfold read
  cases result with
  | error cause => rfl
  | ok bytes => cases h : bytes.text? <;> simp only [h]

theorem settings_conclude {α : Type} (client : Client) (query : Query)
    (value : Slots Limits.parameters → Except Error α) (result : Exchange.Result) :
    (client.conclude query value result).2.settings = client.settings := by
  have hread := client.settings_read query result
  unfold conclude
  cases h : client.read query result with
  | mk outcome after =>
    rw [h] at hread
    cases outcome <;> exact hread

theorem read_of_conclude {α : Type} {client : Client} {query : Query}
    {value : Slots Limits.parameters → Except Error α} {result : Exchange.Result} {found : α}
    (h : (client.conclude query value result).1 = .ok found) :
    ∃ after, client.read query result = (.ok (), after) ∧ value after.slots = .ok found := by
  unfold conclude at h
  cases hread : client.read query result with
  | mk outcome after =>
    rw [hread] at h
    cases outcome with
    | error cause => cases h
    | ok done => exact ⟨after, rfl, h⟩

theorem load_run (client : Client) (query : Query) :
    (load query).run client =
      .ask (client.call query.command Limits.response) fun result =>
        .done (client.read query result) := by
  refine congrArg (Dialogue.ask _) (funext fun result => ?_)
  cases result with
  | error cause => rfl
  | ok bytes =>
    -- what is left of the program once the response is there
    change (match bytes.text? with
      | none => pure (.error .transport)
      | some response => do
        let client ← get
        let (result, slots) := query.load response.toList client.slots
        set { client with slots }
        pure result : Action (Except Error Unit)).run client = _
    simp only [read]
    cases bytes.text? <;> rfl

/-- Whatever reads a response and goes on with the slots makes one call. -/
theorem load_bind_run {α : Type} (client : Client) (query : Query)
    (value : Slots Limits.parameters → Except Error α) :
    (do
      match ← load query with
      | .error cause => return .error cause
      | .ok () =>
        let client ← get
        return value client.slots : Action (Except Error α)).run client =
      .ask (client.call query.command Limits.response) fun result =>
        .done (client.conclude query value result) := by
  rw [StateT.run_bind, load_run]
  refine congrArg (Dialogue.ask _) (funext fun result => ?_)
  simp only [conclude, Dialogue.bind]
  cases client.read query result with
  | mk outcome after => cases outcome <;> rfl

theorem fetch_run (client : Client) (item : Item) :
    (fetch item).run client =
      .ask (client.call item.command Limits.response) fun result =>
        .done (client.conclude item.query item.query.value result) :=
  client.load_bind_run item.query item.query.value

theorem fetchAll_run {query : Query} {items : List Item} (h : sharedQuery? items = some query)
    (client : Client) :
    (fetchAll items).run client =
      .ask (client.call query.command Limits.response) fun result =>
        .done (client.conclude query
          (fun slots => .ok (items.map fun item => item.query.value slots)) result) := by
  unfold fetchAll
  rw [h]
  exact client.load_bind_run query fun slots => .ok (items.map fun item => item.query.value slots)

theorem read_congr {query other : Query} (hcommand : query.command = other.command)
    (hprefixed : query.prefixed = other.prefixed) (hcount : query.count = other.count)
    (client : Client) (result : Exchange.Result) :
    client.read query result = client.read other result := by
  unfold read
  simp only [Query.load_congr hcommand hprefixed hcount]

theorem read_eq_ok_iff {client after : Client} {query : Query} {result : Exchange.Result} :
    client.read query result = (.ok (), after) ↔
      ∃ bytes response slots, result = .ok bytes ∧ bytes.text? = some response ∧
        query.load response.toList client.slots = (.ok (), slots) ∧
        after = { client with slots } := by
  constructor
  · intro h
    unfold read at h
    cases result with
    | error cause => cases h
    | ok bytes =>
      cases htext : bytes.text? with
      | none =>
        simp only [htext] at h
        cases h
      | some response =>
        simp only [htext] at h
        obtain ⟨houtcome, rfl⟩ := Prod.mk.inj h
        exact ⟨bytes, response, _, rfl, htext, Prod.ext houtcome rfl, rfl⟩
  · rintro ⟨bytes, response, slots, rfl, htext, hload, rfl⟩
    simp only [read, htext, hload]

/-- Each of the items finds its value in what has been read for all of them. -/
theorem read_of_serves {query : Query} {items : List Item} (h : Serves query items) {item : Item}
    (hitem : item ∈ items) {client after : Client} {result : Exchange.Result}
    (hread : client.read query result = (.ok (), after)) :
    ∃ own, client.read item.query result = (.ok (), own) ∧
      item.query.value own.slots = item.query.value after.slots := by
  obtain ⟨bytes, response, slots, hresult, htext, hload, rfl⟩ := read_eq_ok_iff.mp hread
  obtain ⟨own, hown, hvalue⟩ := Query.value_of_load (h.command item hitem)
    (h.prefixed item hitem) (h.count_le hitem) item.index_lt_count hload
  exact ⟨{ client with slots := own },
    read_eq_ok_iff.mpr ⟨bytes, response, own, hresult, htext, hown, rfl⟩, hvalue⟩

/-- What comes of asking for an item alone agrees with what comes of asking for several: it has the
same value, and if it is the most demanding one it fails alike. -/
def Matches (items : List Item) (item : Item)
    (together : Except Error (List (Except Error Value)) × Client)
    (alone : Except Error Value × Client) : Prop :=
  (∀ values, together.1 = .ok values → values.length = items.length ∧
    ∀ place : Nat, items[place]? = some item → values[place]? = some alone.1) ∧
  ∀ cause, together.1 = .error cause →
    (∀ other ∈ items, other.query.count ≤ item.query.count) →
    alone = (.error cause, together.2)

theorem matches_conclude {query : Query} {items : List Item} (h : Serves query items)
    {item : Item} (hitem : item ∈ items) (client : Client) (result : Exchange.Result) :
    Matches items item
      (client.conclude query (fun slots => .ok (items.map fun item => item.query.value slots))
        result)
      (client.conclude item.query item.query.value result) := by
  unfold conclude
  cases hread : client.read query result with
  | mk outcome after =>
    cases outcome with
    | ok done =>
      obtain ⟨own, hown, hvalue⟩ := read_of_serves h hitem hread
      rw [hown]
      refine ⟨fun values hvalues => ?_, fun cause hcause => absurd hcause (by simp)⟩
      cases hvalues
      refine ⟨List.length_map _, fun place hplace => ?_⟩
      rw [List.getElem?_map, hplace, Option.map_some, ← hvalue]
    | error cause =>
      refine ⟨fun values hvalues => absurd hvalues (by simp), fun cause' hcause hlargest => ?_⟩
      cases hcause
      have hcount : item.query.count = query.count :=
        Nat.le_antisymm (h.count_le hitem) ((h.count_le_iff _).mpr hlargest)
      rw [read_congr (h.command item hitem) (h.prefixed item hitem) hcount, hread]

/-- To ask for several items that share a command is to make the call that each of them makes. -/
theorem fetchAll_alike_fetch {items : List Item} (h : Item.ShareCommand items) {item : Item}
    (hitem : item ∈ items) (client : Client) :
    ((fetchAll items).run client).Alike (Matches items item) ((fetch item).run client) := by
  obtain ⟨query, hquery, hserves⟩ := sharedQuery?_of_share h
  rw [fetchAll_run hquery, fetch_run]
  have hcommand : query.command = item.command := (hserves.command item hitem).symm
  rw [hcommand]
  exact ⟨rfl, fun result => matches_conclude hserves hitem client result⟩

/-- To ask for several items at once agrees with asking for one of them, from the same state and
whatever transport, modem and others do. It does the same to the station at every step, and ends
when the other ends. Every value is that of its item, and a failure is that of an item that wants
the most parameters. Items that do not share a command, and no items at all, are refused without a
call. -/
theorem fetchAll_agrees_with_fetch (items : List Item) (client : Client) {τ : Type} [Transport τ]
    (changes : List (Station τ → Station τ)) (station : Station τ) :
    let together :=
      Course.amid Conversation.step changes { program := (fetchAll items).run client } station
    let alone (item : Item) :=
      Course.amid Conversation.step changes { program := (fetch item).run client } station
    (Item.ShareCommand items →
      (∀ item ∈ items, (alone item).2 = together.2 ∧
        (alone item).1.result?.isSome = together.1.result?.isSome) ∧
      (∀ values after, together.1 = .finished (.ok values, after) →
        values.length = items.length ∧
          ∀ (place : Nat) (item : Item), items[place]? = some item →
            ∃ value own, values[place]? = some value ∧ (alone item).1 = .finished (value, own)) ∧
      ∀ cause after, together.1 = .finished (.error cause, after) →
        ∀ item ∈ items, (∀ other ∈ items, other.query.count ≤ item.query.count) →
          (alone item).1 = .finished (.error cause, after)) ∧
    (¬Item.ShareCommand items →
      (fetchAll items).run client = .done (.error .invalidArgument, client)) := by
  intro together alone
  constructor
  · intro hshare
    have halike (item : Item) (hitem : item ∈ items) :=
      Conversation.amid_alike (fetchAll_alike_fetch hshare hitem client) changes .queued station
    refine ⟨fun item hitem => ?_, fun values after hvalues => ?_, fun cause after hcause => ?_⟩
    · obtain ⟨hstation, hprogress⟩ := halike item hitem
      exact ⟨hstation.symm, hprogress.isSome_result?.symm⟩
    · have hmatches (item : Item) (hitem : item ∈ items) :
          ∃ single, (alone item).1 = .finished single ∧ values.length = items.length ∧
            ∀ place : Nat, items[place]? = some item → values[place]? = some single.1 := by
        obtain ⟨single, hsingle, hmatch⟩ := (halike item hitem).2.finished hvalues
        exact ⟨single, hsingle, hmatch.1 values rfl⟩
      obtain ⟨first, hfirst⟩ := List.exists_mem_of_ne_nil items hshare.1
      obtain ⟨-, -, hlength, -⟩ := hmatches first hfirst
      refine ⟨hlength, fun place item hplace => ?_⟩
      obtain ⟨⟨value, own⟩, hsingle, -, hvalue⟩ := hmatches item (List.mem_of_getElem? hplace)
      exact ⟨value, own, hvalue place hplace, hsingle⟩
    · intro item hitem hlargest
      obtain ⟨single, hsingle, hmatch⟩ := (halike item hitem).2.finished hcause
      rw [hsingle, hmatch.2 cause rfl hlargest]
  · intro hshare
    unfold fetchAll
    rw [sharedQuery?_of_not_share hshare]
    rfl

/-- A modem that tells the quality of its signal in one response. -/
def qualityModem : Bench.Modem where
  rules :=
    [{ request := Octets.ofText "AT+CESQ"
       replies :=
         [[{ content := .data (Octets.ofText "+CESQ: 99,99,255,255,20,53\r\nOK\r\n") }]] }]

set_option maxRecDepth 4000 in
/-- The first of two items wants two parameters, the other one six; a third sends another
command. -/
theorem fetchAll_agrees_with_fetch_quality :
    let station : Station Bench.Modem := { transport := qualityModem }
    let changes := List.replicate 5 id
    let client : Client := { settings := {} }
    let alone :=
      Course.amid Conversation.step changes { program := (fetch .rssi).run client } station
    (Item.ShareCommand [.rsrp, .rssi] ∧ ∃ own, alone.1 = .finished (.ok (.number 53), own)) ∧
      ¬Item.ShareCommand [.rsrp, .battery] ∧
        (fetchAll [.rsrp, .battery]).run client = .done (.error .invalidArgument, client) := by
  intro station changes client alone
  have hshare : Item.ShareCommand [.rsrp, .rssi] := by
    simp [Item.ShareCommand, Item.command, Item.query]
  have hdiffer : ¬Item.ShareCommand [.rsrp, .battery] := by
    simp [Item.ShareCommand, Item.command, Item.query]
  have hrun : (Course.amid Conversation.step changes
      { program := (fetchAll [.rsrp, .rssi]).run client } station).1 =
        .finished (.ok [.ok (.number 99), .ok (.number 53)],
          { client with
            slots.cells := [99, 99, 255, 255, 20, 53].map .short ++ .replicate 4 .empty }) := by cbv
  obtain ⟨-, hvalues, -⟩ :=
    (fetchAll_agrees_with_fetch [.rsrp, .rssi] client changes station).1 hshare
  obtain ⟨-, hplaces⟩ := hvalues _ _ hrun
  obtain ⟨value, own, hvalue, hsingle⟩ := hplaces 1 .rssi rfl
  cases hvalue
  exact ⟨⟨hshare, own, hsingle⟩, hdiffer,
    (fetchAll_agrees_with_fetch [.rsrp, .battery] client changes station).2 hdiffer⟩

section Sends

variable {α β : Type}

/-- Whatever comes of it, an action keeps the settings, sends these commands and ends as said. -/
def Sends (post : α → Prop) (action : Action α) (commands : List String) : Prop :=
  ∀ client, (action.run client).Makes
    (fun outcome => outcome.2.settings = client.settings ∧ post outcome.1)
    (commands.map fun command => client.call command Limits.response)

theorem call_congr {client other : Client} (h : client.settings = other.settings) :
    client.call = other.call := by
  unfold call
  rw [h]

theorem Sends.pure {post : α → Prop} {value : α} (h : post value) :
    Sends post (Pure.pure value : Action α) [] :=
  fun _ => ⟨rfl, rfl, h⟩

theorem Sends.bind {mid : α → Prop} {post : β → Prop} {action : Action α} {next : α → Action β}
    {commands later : List String} (h : Sends mid action commands)
    (hnext : ∀ value, mid value → Sends post (next value) later) :
    Sends post (action >>= next) (commands ++ later) := by
  intro client
  rw [List.map_append, StateT.run_bind]
  refine (h client).bind fun ⟨value, after⟩ ⟨hsettings, hmid⟩ => ?_
  have hlater := hnext value hmid after
  rw [call_congr hsettings, hsettings] at hlater
  exact hlater

theorem fetch_sends (item : Item) : Sends (fun _ => True) (fetch item) [item.command] := by
  intro client
  rw [fetch_run]
  exact ⟨[], rfl, fun result => ⟨rfl, client.settings_conclude _ _ result, trivial⟩⟩

theorem fetchNumber_sends {item : Item} (h : item.kind = .number) :
    Sends (fun _ => True) (fetchNumber item) [item.command] := by
  unfold fetchNumber
  rw [if_neg (not_not_intro h)]
  refine (fetch_sends item).bind fun result _ => ?_
  cases result with
  | error cause => exact .pure trivial
  | ok value => cases hvalue : value.number? <;> simp only [hvalue] <;> exact .pure trivial

theorem fetchText_sends (item : Item) : Sends (fun _ => True) (fetchText item) [item.command] :=
  (fetch_sends item).bind fun _ _ => .pure trivial

/-- What is found for several items is decoded from parameters that are there. -/
theorem fetchAll_sends {items : List Item} (h : Item.ShareCommand items) {command : String}
    (hcommand : ∀ item ∈ items, item.command = command) :
    Sends (fun result => ∀ values, result = .ok values →
        ∃ slots : Slots Limits.parameters, values = items.map (fun item => item.query.value slots) ∧
          ∀ item ∈ items, ∃ p : Parameter, p.isEmpty = false ∧
            item.query.value slots = item.query.decode p)
      (fetchAll items) [command] := by
  obtain ⟨query, hquery, hserves⟩ := sharedQuery?_of_share h
  obtain ⟨first, hfirst⟩ := List.exists_mem_of_ne_nil items h.1
  have hsent : query.command = command :=
    (hserves.command first hfirst).symm.trans (hcommand first hfirst)
  intro client
  rw [fetchAll_run hquery, hsent]
  refine ⟨[], rfl, fun result =>
    ⟨rfl, client.settings_conclude _ _ result, fun values hvalues => ?_⟩⟩
  obtain ⟨after, hread, hfound⟩ := read_of_conclude hvalues
  cases hfound
  refine ⟨after.slots, rfl, fun item hitem => ?_⟩
  obtain ⟨bytes, response, slots, -, -, hload, rfl⟩ := read_eq_ok_iff.mp hread
  exact Query.value_of_loaded
    (Nat.lt_of_lt_of_le item.index_lt_count (hserves.count_le hitem)) hload

end Sends

end Client

end CellModem
