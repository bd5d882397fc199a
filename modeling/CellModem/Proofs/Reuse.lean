import CellModem.Proofs.Outcome
import CellModem.Proofs.Survey
import CellModem.Proofs.Typed

/-!
Slots are used for one response after another, and nothing of an earlier response shows in a later
one. What is read into them does not depend on what they held, nor on how many there are beyond
those that are wanted; so whatever a client finds, it would have found as a new one.
-/

namespace CellModem

namespace Slots

open Statement

/-- What reading an exact number of fields comes to, and what gets into the slots, whatever slots
these are. -/
theorem exists_loadExactly (count : Nat) (text : List Char) :
    ∃ (result : Except Error Unit) (params : List Parameter),
      (result = .ok () → params.length = count) ∧
      ∀ {limit : Nat} (slots : Slots limit), slots.isAllocated = true → count ≤ slots.capacity →
        slots.loadExactly count text = (result, slots.fill params) := by
  have hroom := length_scan_fields_le count text
  generalize hfound : scan count text = found at hroom
  have hstored := length_parameters_le found.fields
  have hpresent := (List.takeWhile_prefix (fun p => !p.isEmpty)
    (l := parameters found.fields)).length_le
  have hload {limit : Nat} {slots : Slots limit} (hallocated : slots.isAllocated = true)
      (hcount : count ≤ slots.capacity) :
      slots.load count text =
        (if (parameters found.fields).length < found.fields.length then .error .storageExhausted
          else if found.unclosed then .error .incomplete else .ok found.fields.length,
          slots.fill (parameters found.fields)) := by
    simp only [load, hallocated, if_true, Nat.min_eq_left hcount, hfound]
  by_cases hlong : (parameters found.fields).length < found.fields.length
  · refine ⟨.error .storageExhausted, parameters found.fields, (fun hok => by cases hok), ?_⟩
    intro limit slots hallocated hcount
    simp only [loadExactly, hload hallocated hcount, if_pos hlong]
  · by_cases hunclosed : found.unclosed = true
    · refine ⟨.error .incomplete, parameters found.fields, (fun hok => by cases hok), ?_⟩
      intro limit slots hallocated hcount
      simp only [loadExactly, hload hallocated hcount, if_neg hlong, if_pos hunclosed]
    · by_cases hall : ((parameters found.fields).takeWhile fun p => !p.isEmpty).length = count
      · refine ⟨.ok (), parameters found.fields, fun _ => by omega, ?_⟩
        intro limit slots hallocated hcount
        simp only [loadExactly, hload hallocated hcount, if_neg hlong, if_neg hunclosed,
          populated_fill, if_pos hall]
      · refine ⟨.error .incomplete, parameters found.fields, (fun hok => by cases hok), ?_⟩
        intro limit slots hallocated hcount
        simp only [loadExactly, hload hallocated hcount, if_neg hlong, if_neg hunclosed,
          populated_fill, if_neg hall]

end Slots

namespace Query

/-- A response comes to the same in all slots that have room for its parameters. -/
theorem exists_load (query : Query) (hcount : 0 < query.count) (response : List Char) :
    ∃ (result : Except Error Unit) (params : List Parameter),
      (result = .ok () → params.length = query.count) ∧
      ∀ {limit : Nat} (slots : Slots limit), query.count ≤ slots.capacity →
        (query.load response slots).1 = result ∧
          (result = .ok () → (query.load response slots).2 = slots.fill params) := by
  unfold load
  cases query.statement? response with
  | none => exact ⟨.error .incomplete, [], nofun, fun slots _ => ⟨rfl, nofun⟩⟩
  | some statement =>
    obtain ⟨result, params, hlength, hload⟩ := Slots.exists_loadExactly query.count statement
    refine ⟨result, params, hlength, fun slots hroom => ?_⟩
    have hallocated := Slots.isAllocated_of_lt (Nat.lt_of_lt_of_le hcount hroom)
    simp only [hload slots hallocated hroom]
    exact ⟨trivial, fun _ => trivial⟩

/-- And so does the value. -/
theorem exists_answer (query : Query) (hindex : query.index < query.count)
    (response : List Char) :
    ∃ result, ∀ {limit : Nat} (slots : Slots limit), query.count ≤ slots.capacity →
      (query.answer response slots).1 = result := by
  obtain ⟨result, params, hlength, hload⟩ := query.exists_load (Nat.zero_lt_of_lt hindex) response
  cases result with
  | error cause =>
    refine ⟨.error cause, fun slots hroom => ?_⟩
    have hresult := (hload slots hroom).1
    unfold answer
    cases hrun : query.load response slots with
    | mk found after =>
      rw [hrun] at hresult
      cases hresult
      rfl
  | ok done =>
    have hplace : query.index < params.length := by
      rw [hlength rfl]
      exact hindex
    refine ⟨query.decode params[query.index], fun slots hroom => ?_⟩
    obtain ⟨hresult, hafter⟩ := hload slots hroom
    unfold answer
    cases hrun : query.load response slots with
    | mk found after =>
      rw [hrun] at hresult hafter
      cases hresult
      obtain rfl : after = slots.fill params := hafter rfl
      exact value_fill slots hplace

/-- A response is read alike into these and other slots. If it is read at all, they hold the same as
far as is asked for, and nothing behind that. -/
structure ReadsAlike {limit limit' : Nat} (query : Query) (response : List Char)
    (slots : Slots limit) (other : Slots limit') : Prop where
  answer_eq : (query.answer response slots).1 = (query.answer response other).1
  load_eq : (query.load response slots).1 = (query.load response other).1
  get_eq : (query.load response slots).1 = .ok () → ∀ index < query.count, ∃ p : Parameter,
    (query.load response slots).2.get index = .ok p ∧
      (query.load response other).2.get index = .ok p
  empty : (query.load response slots).1 = .ok () → ∀ index, query.count ≤ index →
    (index < slots.capacity → (query.load response slots).2.get index = .ok .empty) ∧
      (index < other.capacity → (query.load response other).2.get index = .ok .empty)

theorem readsAlike {limit limit' : Nat} {query : Query} (hindex : query.index < query.count)
    (response : List Char) {slots : Slots limit} {other : Slots limit'}
    (hroom : query.count ≤ slots.capacity) (hother : query.count ≤ other.capacity) :
    query.ReadsAlike response slots other := by
  obtain ⟨answer, hanswer⟩ := query.exists_answer hindex response
  obtain ⟨result, params, hlength, hload⟩ :=
    query.exists_load (Nat.zero_lt_of_lt hindex) response
  obtain ⟨hone, hslots⟩ := hload slots hroom
  obtain ⟨htwo, hslots'⟩ := hload other hother
  refine ⟨(hanswer slots hroom).trans (hanswer other hother).symm, hone.trans htwo.symm, ?_, ?_⟩
  · intro hok index hplace
    have hfound := hone.symm.trans hok
    rw [← hlength hfound] at hplace
    rw [hslots hfound, hslots' hfound]
    exact ⟨params[index], Slots.get_fill hplace, Slots.get_fill hplace⟩
  · intro hok index hplace
    have hfound := hone.symm.trans hok
    rw [← hlength hfound] at hplace
    rw [hslots hfound, hslots' hfound]
    exact ⟨Slots.get_fill_of_le hplace, Slots.get_fill_of_le hplace⟩

end Query

namespace Item

/-- The typed command of an item finds what is found with any slots that have been in use. -/
theorem decode_iff_answer (item : Item) (bytes : Octets) (value : Value) {limit : Nat}
    {slots : Slots limit} (hroom : item.query.count ≤ slots.capacity) :
    item.decode (.ok bytes) = .ok value ↔ ∃ response after, bytes.text? = some response ∧
      item.query.answer response.toList slots = (.ok value, after) := by
  have hallocated := Slots.isAllocated_of_lt
    (Nat.lt_of_lt_of_le (Nat.zero_lt_of_lt item.index_lt_count) hroom)
  have htells (response : String) :
      (∃ after, item.query.answer response.toList slots = (.ok value, after)) ↔
        item.query.Tells response.toList value :=
    Query.exists_answer_iff_tells item.index_lt_count hallocated hroom
  rw [(item.decode_ok bytes).1 value]
  simp only [Tells, ← htells, exists_and_left]

end Item

namespace Dialogue

variable {α β γ δ : Type}

/-- Programs that go on alike after programs that are alike. -/
theorem Alike.bind {related : α → β → Prop} {related' : γ → δ → Prop} {first : Dialogue α}
    {second : Dialogue β} {next : α → Dialogue γ} {later : β → Dialogue δ}
    (h : first.Alike related second)
    (hnext : ∀ one two, related one two → (next one).Alike related' (later two)) :
    (first.bind next).Alike related' (second.bind later) := by
  induction first generalizing second with
  | done one =>
    cases second with
    | done two => exact hnext one two h
    | ask call after => exact h.elim
  | ask call after ih =>
    cases second with
    | done two => exact h.elim
    | ask other after' => exact ⟨h.1, fun result => ih result (h.2 result)⟩

end Dialogue

namespace Client

/-- A client under these settings, whatever its slots hold. -/
structure Under (settings : Settings) (client : Client) : Prop where
  settings_eq : client.settings = settings
  roomy : client.Roomy

theorem under_new (settings : Settings) : Under settings { settings } :=
  ⟨rfl, roomy_new settings⟩

/-- Two clients have found the same, and neither has changed but for its slots. -/
structure Twins {α : Type} (settings : Settings) (one two : α × Client) : Prop where
  found_eq : one.1 = two.1
  first : Under settings one.2
  second : Under settings two.2

/-- What can be done with a client: everything is made up of these, one after the other. Nobody
looks at a client for more than its settings. -/
inductive Uses : {α : Type} → Action α → Prop where
  | pure {α : Type} (value : α) : Uses (Pure.pure value : Action α)
  | bind {α β : Type} {action : Action α} {next : α → Action β} (haction : Uses action)
      (hnext : ∀ value, Uses (next value)) : Uses (action >>= next)
  | settings {α : Type} {next : Client → Action α} (hnext : ∀ client, Uses (next client))
      (hsame : ∀ client other, client.settings = other.settings → next client = next other) :
      Uses (get >>= next)
  | send (command : String) (size : Nat) : Uses (send command size)
  | fetch (item : Item) : Uses (fetch item)
  | fetchAll (items : List Item) : Uses (fetchAll items)
  | issue {α : Type} (command : Command α) : Uses (issue command)

/-- Clients under the same settings make the same calls, and find the same. -/
def Oblivious {α : Type} (action : Action α) : Prop :=
  ∀ ⦃settings : Settings⦄ ⦃client other : Client⦄, Under settings client → Under settings other →
    (action.run client).Alike (Twins settings) (action.run other)

section

variable {α : Type} {settings : Settings} {client other : Client}
  (hclient : Under settings client) (hother : Under settings other)

include hclient hother

theorem call_eq_of_under : client.call = other.call :=
  call_congr (hclient.settings_eq.trans hother.settings_eq.symm)

/-- A response is read alike, and what has been read fills the slots alike. -/
theorem read_of_under {query : Query} (hpositive : 0 < query.count)
    (hcount : query.count ≤ Limits.parameters) (result : Exchange.Result) :
    (client.read query result).1 = (other.read query result).1 ∧
      ((client.read query result).1 = .ok () →
        (client.read query result).2.slots = (other.read query result).2.slots) := by
  cases result with
  | error cause =>
    refine ⟨rfl, ?_⟩
    intro hok
    cases hok
  | ok bytes =>
    cases htext : bytes.text? with
    | none =>
      simp only [read, htext, true_and]
      intro hok
      cases hok
    | some response =>
      obtain ⟨found, params, -, hload⟩ := query.exists_load hpositive response.toList
      obtain ⟨hfound, hslots⟩ := hload client.slots (by rw [hclient.roomy]; exact hcount)
      obtain ⟨hfound', hslots'⟩ := hload other.slots (by rw [hother.roomy]; exact hcount)
      have hfill : client.slots.fill params = other.slots.fill params := by
        unfold Slots.fill
        rw [hclient.roomy, hother.roomy]
      simp only [read, htext, hfound, hfound', true_and]
      intro hok
      rw [hslots hok, hslots' hok, hfill]

/-- What one makes of a response is what the other makes of it. -/
theorem twins_conclude {query : Query} (hpositive : 0 < query.count)
    (hcount : query.count ≤ Limits.parameters)
    (value : Slots Limits.parameters → Except Error α) (result : Exchange.Result) :
    Twins settings (client.conclude query value result) (other.conclude query value result) where
  found_eq := by
    obtain ⟨hfound, hslots⟩ := read_of_under hclient hother hpositive hcount result
    unfold conclude
    cases hone : client.read query result with
    | mk one after =>
      cases htwo : other.read query result with
      | mk two after' =>
        rw [hone, htwo] at hfound hslots
        obtain rfl : one = two := hfound
        cases one with
        | error cause => rfl
        | ok done => exact congrArg value (hslots rfl)
  first := ⟨(client.settings_conclude query value result).trans hclient.settings_eq,
    hclient.roomy.conclude query value result⟩
  second := ⟨(other.settings_conclude query value result).trans hother.settings_eq,
    hother.roomy.conclude query value result⟩

end

section

variable {α β : Type}

theorem oblivious_pure (value : α) : Oblivious (Pure.pure value : Action α) :=
  fun _ _ _ hclient hother => ⟨rfl, hclient, hother⟩

theorem Oblivious.bind {action : Action α} {next : α → Action β} (h : Oblivious action)
    (hnext : ∀ value, Oblivious (next value)) : Oblivious (action >>= next) := by
  intro settings client other hclient hother
  rw [StateT.run_bind, StateT.run_bind]
  refine (h hclient hother).bind fun one two htwins => ?_
  obtain ⟨found, client⟩ := one
  obtain ⟨found', other⟩ := two
  obtain rfl : found = found' := htwins.found_eq
  exact hnext found htwins.first htwins.second

theorem Oblivious.settings {next : Client → Action α} (hnext : ∀ client, Oblivious (next client))
    (hsame : ∀ client other, client.settings = other.settings → next client = next other) :
    Oblivious (get >>= next) := by
  intro settings client other hclient hother
  have hnext' := hnext client hclient hother
  have hlater : next client = next other :=
    hsame client other (hclient.settings_eq.trans hother.settings_eq.symm)
  change ((next client).run client).Alike (Twins settings) ((next other).run other)
  rw [← hlater]
  exact hnext'

theorem oblivious_send (command : String) (size : Nat) : Oblivious (send command size) := by
  intro settings client other hclient hother
  refine ⟨?_, fun result => ⟨rfl, hclient, hother⟩⟩
  rw [call_eq_of_under hclient hother]

theorem oblivious_fetch (item : Item) : Oblivious (fetch item) := by
  intro settings client other hclient hother
  rw [fetch_run, fetch_run, call_eq_of_under hclient hother]
  exact ⟨rfl, twins_conclude hclient hother (Nat.zero_lt_of_lt item.index_lt_count)
    item.count_le_parameters item.query.value⟩

theorem oblivious_fetchAll (items : List Item) : Oblivious (fetchAll items) := by
  by_cases hshare : Item.ShareCommand items
  · obtain ⟨query, hquery, hserves⟩ := sharedQuery?_of_share hshare
    obtain ⟨first, hfirst⟩ := List.exists_mem_of_ne_nil items hshare.1
    have hpositive : 0 < query.count :=
      Nat.lt_of_lt_of_le (Nat.zero_lt_of_lt first.index_lt_count) (hserves.count_le hfirst)
    have hcount : query.count ≤ Limits.parameters :=
      (hserves.count_le_iff _).mpr fun item _ => item.count_le_parameters
    intro settings client other hclient hother
    rw [fetchAll_run hquery, fetchAll_run hquery, call_eq_of_under hclient hother]
    exact ⟨rfl, twins_conclude hclient hother hpositive hcount _⟩
  · have hrefused : fetchAll items = Pure.pure (.error .invalidArgument) := by
      unfold fetchAll
      rw [sharedQuery?_of_not_share hshare]
    rw [hrefused]
    exact oblivious_pure _

theorem oblivious_issue (command : Command α) : Oblivious (issue command) := by
  unfold issue
  split
  case isTrue => exact oblivious_pure _
  case isFalse =>
    split
    case h_1 => exact oblivious_pure _
    case h_2 text htext =>
      refine (oblivious_send text _).bind fun result => ?_
      cases result with
      | error cause => exact oblivious_pure _
      | ok bytes =>
        cases hdecode : command.decode (.ok bytes) <;> simp only [hdecode] <;>
          exact oblivious_pure _

/-- Whatever is made up of these does not show what the slots held before. -/
theorem Uses.oblivious {action : Action α} (h : Uses action) : Oblivious action := by
  induction h with
  | pure value => exact oblivious_pure value
  | bind _ _ haction hnext => exact haction.bind hnext
  | settings _ hsame hnext => exact Oblivious.settings hnext hsame
  | send command size => exact oblivious_send command size
  | fetch item => exact oblivious_fetch item
  | fetchAll items => exact oblivious_fetchAll items
  | issue command => exact oblivious_issue command

end

theorem uses_fetchNumber (item : Item) : Uses (fetchNumber item) := by
  unfold fetchNumber
  split
  case isTrue => exact .pure _
  case isFalse =>
    refine .bind (.fetch item) fun result => ?_
    cases result with
    | error cause => exact .pure _
    | ok value => cases hvalue : value.number? <;> simp only [hvalue] <;> exact .pure _

theorem uses_fetchText (item : Item) : Uses (fetchText item) :=
  .bind (.fetch item) fun _ => .pure _

end Client

namespace Survey

namespace Collection

variable {α β : Type}

/-- A collection that uses the client for nothing else. -/
def Uses (collection : Collection α) : Prop :=
  ∀ noted, Client.Uses (collection.run noted)

theorem Uses.pure (value : α) : Uses (Pure.pure value : Collection α) :=
  fun noted => .pure (value, noted)

theorem Uses.bind {collection : Collection α} {next : α → Collection β} (h : Uses collection)
    (hnext : ∀ value, Uses (next value)) : Uses (collection >>= next) := by
  intro noted
  rw [StateT.run_bind]
  exact .bind (h noted) fun outcome => hnext outcome.1 outcome.2

theorem Uses.ofClient {action : Client.Action α} (h : Client.Uses action) :
    Uses (liftM action : Collection α) :=
  fun noted => .bind h fun value => .pure (value, noted)

theorem uses_check (item : Item) (result : Except Error α) : Uses (check item result) := by
  intro noted
  cases result with
  | ok value => exact .pure _
  | error cause => exact .pure _

theorem uses_number (item : Item) : Uses (number item) :=
  (Uses.ofClient (Client.uses_fetchNumber item)).bind (uses_check item)

theorem uses_text (item : Item) : Uses (text item) :=
  (Uses.ofClient (Client.uses_fetchText item)).bind (uses_check item)

theorem uses_mapM_check (item : β → Item) (result : β → Except Error α) (places : List β) :
    Uses (places.mapM fun place => check (item place) (result place)) := by
  induction places with
  | nil => exact .pure _
  | cons place places ih =>
    rw [List.mapM_cons]
    exact (uses_check _ _).bind fun value => ih.bind fun values => .pure _

theorem uses_together (items : List Item) : Uses (together items) := by
  refine (Uses.ofClient (.fetchAll items)).bind fun result => ?_
  cases result with
  | ok values => exact uses_mapM_check Prod.fst Prod.snd _
  | error cause => exact uses_mapM_check id (fun _ => .error cause) items

theorem uses_hexWord (item : Item) (value : Option Value) : Uses (hexWord item value) := by
  unfold hexWord
  split
  · exact uses_check item _
  · exact .pure _

theorem uses_networkCode (operator : Option String) : Uses (networkCode operator) := by
  cases operator with
  | none => exact .pure _
  | some s => exact uses_check _ _

theorem Uses.settings {next : Client → Collection α} (hnext : ∀ client, Uses (next client))
    (hsame : ∀ client other, client.settings = other.settings → next client = next other) :
    Uses (getThe Client >>= next) := by
  intro noted
  have huses : Client.Uses (get >>= fun client => (next client).run noted) :=
    .settings (fun client => hnext client noted) fun client other hsettings => by
      rw [hsame client other hsettings]
  exact huses

end Collection

open Collection in
/-- A report is collected with nothing else. -/
theorem uses_fetch : Client.Uses fetch := by
  have hcollect : Uses collect := by
    unfold collect
    refine .settings (fun client => ?_) fun client other hsettings => by simp only [hsettings]
    refine (uses_number _).bind fun currentBand => ?_
    refine (uses_text _).bind fun supportedBands => ?_
    refine (uses_text _).bind fun ipAddress => ?_
    refine (uses_number _).bind fun ueMode => ?_
    refine (uses_text _).bind fun operator => ?_
    refine (uses_networkCode operator).bind fun codes => ?_
    refine (uses_together _).bind fun place => ?_
    refine (uses_hexWord _ _).bind fun cellId => ?_
    refine (uses_hexWord _ _).bind fun areaCode => ?_
    refine (uses_together _).bind fun modes => ?_
    refine (uses_number _).bind fun uiccState => ?_
    refine (uses_text _).bind fun iccid => ?_
    refine (uses_text _).bind fun firmware => ?_
    refine (uses_number _).bind fun battery => ?_
    exact .pure _
  exact hcollect []

end Survey

namespace Client

/-- Whatever has been done with a client, it does and finds what a new one would. -/
theorem amid_of_used {α β τ : Type} [Transport τ] {settings : Settings} {before : Action β}
    {action : Action α} (hbefore : Uses before) (haction : Uses action)
    {changes : List (Station τ → Station τ)} {station : Station τ} {found : β} {used : Client}
    (hused : (Course.amid Conversation.step changes
      { program := before.run { settings } } station).1 = .finished (found, used))
    (changes' : List (Station τ → Station τ)) (station' : Station τ) :
    let again :=
      Course.amid Conversation.step changes' { program := action.run used } station'
    let fresh :=
      Course.amid Conversation.step changes' { program := action.run { settings } } station'
    again.2 = fresh.2 ∧ again.1.result?.map Prod.fst = fresh.1.result?.map Prod.fst := by
  intro again fresh
  have hnew := under_new settings
  obtain ⟨-, hpast⟩ :=
    Conversation.amid_alike (hbefore.oblivious hnew hnew) changes .queued station
  obtain ⟨other, -, htwins⟩ := hpast.finished hused
  obtain ⟨hstation, hprogress⟩ :=
    Conversation.amid_alike (haction.oblivious htwins.first hnew) changes' .queued station'
  refine ⟨hstation, ?_⟩
  change Conversation.Corresponds _ again.1 fresh.1 at hprogress
  generalize again.1 = one at hprogress
  generalize fresh.1 = two at hprogress
  cases one with
  | finished outcome =>
    obtain ⟨other, rfl, hsame⟩ := hprogress.finished rfl
    exact congrArg some hsame.found_eq
  | moved talk => cases two <;> first | rfl | exact hprogress.elim
  | waiting talk => cases two <;> first | rfl | exact hprogress.elim

/-- Nothing depends on what slots held before. A query, of the catalog or not, reads a response
alike into any slots that have room for its parameters; the typed command of an item, which has
slots of its own, finds the value that is found with slots in use; and whatever has been done with a
client, it does to every station what a new one would do, and finds the same. That goes for a whole
report too. -/
theorem regardless_of_slots :
    (∀ (query : Query) (response : List Char) {limit limit' : Nat} (slots : Slots limit)
        (other : Slots limit'), query.index < query.count → query.count ≤ slots.capacity →
        query.count ≤ other.capacity → query.ReadsAlike response slots other) ∧
    (∀ (item : Item) (bytes : Octets) (value : Value) {limit : Nat} (slots : Slots limit),
      item.query.count ≤ slots.capacity →
        (item.decode (.ok bytes) = .ok value ↔ ∃ response after, bytes.text? = some response ∧
          item.query.answer response.toList slots = (.ok value, after))) ∧
    ((∀ item, Uses (fetchNumber item) ∧ Uses (fetchText item)) ∧ Uses Survey.fetch) ∧
    ∀ {α β τ : Type} [Transport τ] (settings : Settings) (before : Action β) (action : Action α),
      Uses before → Uses action →
      ∀ (changes : List (Station τ → Station τ)) (station : Station τ) (found : β)
        (used : Client),
        (Course.amid Conversation.step changes { program := before.run { settings } } station).1 =
          .finished (found, used) →
        ∀ (changes' : List (Station τ → Station τ)) (station' : Station τ),
          let again :=
            Course.amid Conversation.step changes' { program := action.run used } station'
          let fresh :=
            Course.amid Conversation.step changes' { program := action.run { settings } } station'
          again.2 = fresh.2 ∧
            again.1.result?.map Prod.fst = fresh.1.result?.map Prod.fst := by
  refine ⟨?_, ?_, ?_, ?_⟩
  · intro query response limit limit' slots other hindex hroom hother
    exact Query.readsAlike hindex response hroom hother
  · intro item bytes value limit slots hroom
    exact item.decode_iff_answer bytes value hroom
  · exact ⟨fun item => ⟨uses_fetchNumber item, uses_fetchText item⟩, Survey.uses_fetch⟩
  · intro α β τ _ settings before action hbefore haction changes station found used hused
    exact amid_of_used hbefore haction hused

set_option maxRecDepth 8000 in
/-- One slot of two still holds a text, and ten new ones take more than the response has. A client
that has found one band finds another one. -/
theorem regardless_of_slots_band :
    let used : Slots 2 := { cells := [.text "24201", .short 7] }
    let response := "%XTEMP: 1,23".toList
    Item.temperature.query.ReadsAlike response used (.full : Slots Limits.parameters) ∧
      Item.temperature.decode (.ok (Octets.ofText "%XTEMP: 1,23")) = .ok (.number 23) ∧
      ∃ client : Client, client.slots.cells ≠ ({ settings := {} } : Client).slots.cells ∧
        (Course.amid Conversation.step (List.replicate 5 id)
          { program := (fetch .currentBand).run client }
          (bandStation (Octets.ofText "%XCBAND: 20\r\nOK\r\n"))).1.result?.map Prod.fst =
            some (.ok (.number 20)) := by
  intro used response
  obtain ⟨hqueries, hitems, -, hclients⟩ := regardless_of_slots
  have hpast : (Course.amid Conversation.step (List.replicate 5 id)
      { program := (fetch .currentBand).run { settings := {} } }
        (bandStation (Octets.ofText "%XCBAND: 7\r\nOK\r\n"))).1 = .finished (.ok (.number 7),
          { settings := {}, slots.cells := [.short 7] ++ .replicate 9 .empty }) := by cbv
  have hfresh : (Course.amid Conversation.step (List.replicate 5 id)
      { program := (fetch .currentBand).run { settings := {} } }
        (bandStation (Octets.ofText "%XCBAND: 20\r\nOK\r\n"))).1.result?.map Prod.fst =
          some (.ok (.number 20)) := by cbv
  have hsame := hclients {} (fetch .currentBand) (fetch .currentBand) (.fetch _) (.fetch _)
    (List.replicate 5 id) (bandStation (Octets.ofText "%XCBAND: 7\r\nOK\r\n")) _ _ hpast
    (List.replicate 5 id) (bandStation (Octets.ofText "%XCBAND: 20\r\nOK\r\n"))
  refine ⟨hqueries _ _ _ _ (by decide) (by decide) (by decide), ?_, _, ?_, hsame.2.trans hfresh⟩
  · exact (hitems .temperature _ _ used (by decide)).mpr
      ⟨"%XTEMP: 1,23", { cells := [.short 1, .short 23] }, Octets.text?_ofText _, by decide⟩
  · decide

end Client

end CellModem
