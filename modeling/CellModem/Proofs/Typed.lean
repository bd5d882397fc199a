import CellModem.Bench.Modem
import CellModem.Proofs.Client
import CellModem.Proofs.Conversation
import CellModem.Proofs.Spelling

/-!
An item of the catalog can be asked for by its name or by its typed command. Both ways send the same
request and read the same response, although one of them fills slots that are used over and over and
the other one new slots, as many as the item wants. So they do the same to the station and find the
same value; they differ in the name they give to a response without one.
-/

namespace CellModem

namespace Query

variable {limit : Nat}

/-- Reading keeps the number of slots. -/
theorem capacity_load (query : Query) (response : List Char) (slots : Slots limit) :
    (query.load response slots).2.capacity = slots.capacity := by
  unfold load
  cases query.statement? response with
  | none => rfl
  | some statement =>
    have hload := slots.capacity_load query.count statement
    simp only [Slots.loadExactly]
    cases hrun : slots.load query.count statement with
    | mk result after =>
      rw [hrun] at hload
      cases result with
      | error cause => exact hload
      | ok count =>
        by_cases hpopulated : after.populated = query.count
        · simpa only [hpopulated, if_true] using hload
        · simpa only [hpopulated, if_false] using hload

/-- The response says that this is the value, whoever has slots for its parameters. -/
def Tells (query : Query) (response : List Char) (value : Value) : Prop :=
  ∃ statement params p, query.statement? response = some statement ∧
    params.length = query.count ∧ Statement.Presents statement params ∧
    params[query.index]? = some p ∧ query.decode p = .ok value

/-- What was in the slots does not matter, nor how many there are beyond those that are wanted. -/
theorem exists_answer_iff_tells {query : Query} (hindex : query.index < query.count)
    {slots : Slots limit} (hallocated : slots.isAllocated = true)
    (hroom : query.count ≤ slots.capacity) {response : List Char} {value : Value} :
    (∃ after, query.answer response slots = (.ok value, after)) ↔ query.Tells response value := by
  simp only [answer_eq_ok_iff, load_eq_ok_iff_presents]
  constructor
  · rintro ⟨after, ⟨statement, params, hstatement, hlength, hpresents, -, -, rfl⟩, hvalue⟩
    rw [← hlength] at hindex
    rw [value_fill slots hindex] at hvalue
    exact ⟨statement, params, _, hstatement, hlength, hpresents, List.getElem?_eq_getElem hindex,
      hvalue⟩
  · rintro ⟨statement, params, p, hstatement, hlength, hpresents, hp, hdecode⟩
    obtain ⟨hplace, rfl⟩ := List.getElem?_eq_some_iff.mp hp
    refine ⟨slots.fill params, ⟨statement, params, hstatement, hlength, hpresents, hallocated,
      hroom, rfl⟩, ?_⟩
    rw [value_fill slots hplace, hdecode]

end Query

namespace Item

theorem count_le_parameters (item : Item) : item.query.count ≤ Limits.parameters := by
  cases item <;> decide

/-- The bytes say that this is the value of the item. -/
def Tells (item : Item) (bytes : Octets) (value : Value) : Prop :=
  ∃ response, bytes.text? = some response ∧ item.query.Tells response.toList value

theorem exists_slots (item : Item) :
    ∃ slots : Slots Limits.parameters, Slots.ofCapacity item.query.count = .ok slots ∧
      slots.isAllocated = true ∧ item.query.count ≤ slots.capacity := by
  cases item <;> exact ⟨_, rfl, rfl, by decide⟩

/-- The typed command finds the value that the response tells, and otherwise fails to parse. -/
theorem decode_ok (item : Item) (bytes : Octets) :
    (∀ value, item.decode (.ok bytes) = .ok value ↔ item.Tells bytes value) ∧
      ∀ fault, item.decode (.ok bytes) = .error fault → fault = .parse := by
  obtain ⟨slots, hslots, hallocated, hroom⟩ := item.exists_slots
  have htells (response : List Char) (value : Value) :
      (∃ after, item.query.answer response slots = (.ok value, after)) ↔
        item.query.Tells response value :=
    Query.exists_answer_iff_tells item.index_lt_count hallocated hroom
  unfold decode Tells
  cases htext : bytes.text? with
  | none => simp [htext]
  | some response =>
    simp only [htext, hslots, Option.some.injEq, exists_eq_left']
    cases hanswer : item.query.answer response.toList slots with
    | mk result after =>
      cases result with
      | ok found =>
        refine ⟨fun value => ?_, fun fault hfault => by cases hfault⟩
        rw [← htells, hanswer]
        simp
      | error cause =>
        refine ⟨fun value => ?_, fun fault hfault => by cases hfault; rfl⟩
        rw [← htells, hanswer]
        simp

/-- No command of the catalog ends with white space. -/
theorem getLast?_command (item : Item) :
    ∀ c ∈ item.command.toList.getLast?, Text.isBlank c = false := by
  cases item <;> simp [command, query, Text.isBlank]

/-- The typed command of an item sends the command of its query. -/
theorem commandText?_typed (item : Item) :
    Client.commandText? item.typed.request = some item.command := by
  have hrequest : item.typed.request = Octets.ofText (item.command ++ "\r\n") := by
    simp only [typed, Octets.ofText, String.toUTF8_eq_toByteArray, String.toByteArray_append,
      ByteArray.data_append, Array.toList_append]
  have htrim : Text.trimEnd (item.command.toList ++ "\r\n".toList) = item.command.toList := by
    rw [Text.trimEnd_append_of_blank (by simp [Text.isBlank]),
      Text.trimEnd_eq_self item.getLast?_command]
  rw [Client.commandText?, hrequest, Octets.text?_ofText, Option.map_some, String.toList_append,
    htrim, String.ofList_toList]

end Item

namespace Exchange

/-- What an exchange can fail from. -/
def causes : List Error :=
  [.invalidArgument, .transport, .timeout]

/-- A failure has one of the causes that an exchange can fail from. -/
def Blames (result : Result) : Prop :=
  ∀ cause, result = .error cause → cause ∈ causes

theorem blames_ok (payload : Octets) : Blames (.ok payload) :=
  fun _ h => by cases h

theorem blames_error {cause : Error} (h : cause ∈ causes) : Blames (.error cause) :=
  fun _ hcause => by cases hcause; exact h

theorem blames_transport : Blames (.error .transport) :=
  blames_error (by decide)

theorem blames_conclusion (verdict : Line.Verdict) (payload : Octets) :
    Blames (conclusion verdict payload) := by
  cases verdict with
  | accepted => exact blames_ok payload
  | refused => exact blames_transport

variable {τ : Type}

/-- What is said of the outcome of a step: nothing yet, or a result that blames. -/
abbrev MayBlame (outcome : Progress Stage Result × Station τ) : Prop :=
  Course.Meets (fun _ _ => True) (fun result _ => Blames result) outcome

theorem mayBlame_wait (station : Station τ) (timer : Timer) (stage : Timer → Stage) :
    MayBlame (wait station timer stage) := by
  unfold wait
  cases timer.ask station.now with
  | some later => trivial
  | none => exact blames_error (by decide)

theorem mayBlame_sent (request : Octets) (timer : Timer) (outcome : Attempt Nat × Station τ) :
    MayBlame (sent request timer outcome) := by
  obtain ⟨attempt, station⟩ := outcome
  cases attempt with
  | waiting => exact mayBlame_wait station timer _
  | failed => exact blames_transport
  | done taken =>
    by_cases htaken : taken = request.length
    · simp only [sent, htaken, if_true]
      trivial
    · simp only [sent, htaken, if_false]
      exact blames_transport

theorem mayBlame_flushed (call : Call) (timer : Timer) (outcome : Attempt Unit × Station τ) :
    MayBlame (flushed call timer outcome) := by
  obtain ⟨attempt, station⟩ := outcome
  cases attempt with
  | waiting => exact mayBlame_wait station timer _
  | failed => exact blames_transport
  | done result => trivial

theorem mayBlame_received (timer : Timer) (station : Station τ)
    (outcome : Reception.Outcome × List Signal) : MayBlame (received timer station outcome) := by
  obtain ⟨outcome, signals⟩ := outcome
  cases outcome with
  | unfinished buffer => trivial
  | ended ending =>
    rw [received_ended]
    exact blames_conclusion ending.verdict ending.payload

/-- Whatever the station is like, an exchange fails from one of three causes. -/
theorem step_mayBlame [Transport τ] (call : Call) (stage : Stage) (station : Station τ) :
    MayBlame (step call stage station) := by
  cases stage with
  | queued =>
    unfold step
    cases hrequest : call.request? with
    | none => exact blames_error (by decide)
    | some request =>
      by_cases hlocked : station.locked
      · simp only [hlocked, if_true]
        trivial
      · by_cases haligned : station.lock.alignment = .aligned
        · simp only [hlocked, haligned, if_true]
          trivial
        · simp only [hlocked, haligned, if_false]
          trivial
  | realigning request realignment =>
    simp only [step]
    cases hrun : realignment.step station with
    | mk progress next => cases progress <;> trivial
  | sending request timer begun => cases begun <;> exact mayBlame_sent request timer _
  | flushing timer begun => cases begun <;> exact mayBlame_flushed call timer _
  | receiving buffer timer =>
    unfold step
    by_cases hfull : buffer.room = 0
    · simp only [hfull, if_true]
      exact blames_transport
    · simp only [hfull, if_false]
      cases hrun : station.read .response buffer.room with
      | mk attempt next =>
        cases attempt with
        | waiting => exact mayBlame_wait next timer _
        | failed => exact blames_transport
        | done chunk =>
          by_cases hend : chunk.val = []
          · simp only [hend, if_true]
            exact blames_transport
          · simp only [hend, if_false]
            exact mayBlame_received timer next _

end Exchange

namespace Client

/-- All slots that a client can have are there. -/
def Roomy (client : Client) : Prop :=
  client.slots.capacity = Limits.parameters

theorem roomy_new (settings : Settings) : Roomy { settings } :=
  Slots.capacity_full

theorem Roomy.isAllocated {client : Client} (h : client.Roomy) :
    client.slots.isAllocated = true := by
  cases hcells : client.slots.cells with
  | nil =>
    rw [Roomy, Slots.capacity, hcells] at h
    cases h
  | cons p cells => simp [Slots.isAllocated, hcells]

theorem send_run (client : Client) (command : String) :
    (send command).run client =
      .ask (client.call command Limits.response) fun result => .done (result, client) :=
  rfl

/-- What a client makes of the response to a typed command. -/
def settle {α : Type} (client : Client) (command : Command α) :
    Exchange.Result → Except Error α × Client
  | .error cause => (.error cause, client)
  | .ok bytes =>
    match command.decode (.ok bytes) with
    | .ok value => (.ok value, client)
    | .error fault => (.error (.command fault), client)

theorem issue_run {α : Type} {command : Command α} {text : String} (client : Client)
    (hlength : command.maxLength ≤ Limits.request)
    (htext : commandText? command.request = some text) :
    (issue command).run client =
      .ask (client.call text Limits.response) fun result =>
        .done (client.settle command result) := by
  unfold issue
  rw [if_neg (Nat.not_lt_of_le hlength), htext]
  refine congrArg (Dialogue.ask _) (funext fun result => ?_)
  cases result with
  | error cause => rfl
  | ok bytes =>
    change (match command.decode (.ok bytes) with
      | .ok value => pure (.ok value)
      | .error fault => pure (.error (.command fault)) : Action (Except Error α)).run client = _
    simp only [settle]
    cases command.decode (.ok bytes) <;> rfl

/-- Reading a response into the slots keeps their number. -/
theorem Roomy.conclude {α : Type} {client : Client} (h : client.Roomy) (query : Query)
    (value : Slots Limits.parameters → Except Error α) (result : Exchange.Result) :
    (client.conclude query value result).2.Roomy := by
  have hread : (client.read query result).2.Roomy := by
    unfold read
    cases result with
    | error cause => exact h
    | ok bytes =>
      cases htext : bytes.text? with
      | none => simpa only [htext] using h
      | some response =>
        simp only [htext]
        exact (query.capacity_load response.toList client.slots).trans h
  unfold Client.conclude
  cases hrun : client.read query result with
  | mk outcome after =>
    rw [hrun] at hread
    cases outcome <;> exact hread

theorem Roomy.settle {α : Type} {client : Client} (h : client.Roomy) (command : Command α)
    (result : Exchange.Result) : (client.settle command result).2.Roomy := by
  unfold Client.settle
  cases result with
  | error cause => exact h
  | ok bytes => cases hdecode : command.decode (.ok bytes) <;> simpa only [hdecode] using h

/-- After a successful exchange the item is found if and only if the response tells it. -/
theorem conclude_eq_ok_iff {client : Client} (h : client.Roomy) (item : Item) (bytes : Octets)
    (value : Value) :
    (client.conclude item.query item.query.value (.ok bytes)).1 = .ok value ↔
      item.Tells bytes value := by
  have hroom : item.query.count ≤ client.slots.capacity := by
    rw [h]
    exact item.count_le_parameters
  have htells (response : String) :
      (∃ after, item.query.answer response.toList client.slots = (.ok value, after)) ↔
        item.query.Tells response.toList value :=
    Query.exists_answer_iff_tells item.index_lt_count h.isAllocated hroom
  simp only [Item.Tells, ← htells, Query.answer_eq_ok_iff]
  constructor
  · intro hfound
    obtain ⟨after, hread, hvalue⟩ := read_of_conclude hfound
    obtain ⟨bytes, response, slots, hbytes, htext, hload, rfl⟩ := read_eq_ok_iff.mp hread
    cases hbytes
    exact ⟨response, htext, slots, hload, hvalue⟩
  · rintro ⟨response, htext, slots, hload, hvalue⟩
    have hread : client.read item.query (.ok bytes) = (.ok (), { client with slots }) :=
      read_eq_ok_iff.mpr ⟨bytes, response, slots, rfl, htext, hload, rfl⟩
    simp only [conclude, hread, hvalue]

/-- What asking for an item and sending its typed command come to, if the exchange that either makes
has this result. A failure of the exchange is that of both. -/
def Agrees (result : Exchange.Result) (fetched issued : Except Error Value) : Prop :=
  match result with
  | .error cause => cause ∈ Exchange.causes ∧ fetched = .error cause ∧ issued = .error cause
  | .ok _ =>
    (∃ value, fetched = .ok value ∧ issued = .ok value) ∨
      (∃ cause, fetched = .error cause) ∧ issued = .error (.command .parse)

theorem Agrees.ok_iff {result : Exchange.Result} {fetched issued : Except Error Value}
    (h : Agrees result fetched issued) (value : Value) :
    fetched = .ok value ↔ issued = .ok value := by
  cases result with
  | error cause =>
    obtain ⟨-, rfl, rfl⟩ := h
    simp
  | ok bytes =>
    rcases h with ⟨found, rfl, rfl⟩ | ⟨⟨cause, rfl⟩, rfl⟩
    · rfl
    · simp

theorem agrees_conclude_settle {client : Client} (hroomy : client.Roomy) (item : Item)
    {result : Exchange.Result} (hblames : Exchange.Blames result) :
    Agrees result (client.conclude item.query item.query.value result).1
      (client.settle item.typed result).1 := by
  cases result with
  | error cause => exact ⟨hblames cause rfl, rfl, rfl⟩
  | ok bytes =>
    obtain ⟨htells, hparse⟩ := item.decode_ok bytes
    have hfetched (value : Value) := conclude_eq_ok_iff hroomy item bytes value
    simp only [Agrees, settle, Item.typed]
    cases hdecode : item.decode (.ok bytes) with
    | ok value => exact Or.inl ⟨value, (hfetched value).mpr ((htells value).mp hdecode), rfl⟩
    | error fault =>
      cases hparse fault hdecode
      refine Or.inr ⟨?_, rfl⟩
      cases hconclude : (client.conclude item.query item.query.value (.ok bytes)).1 with
      | error cause => exact ⟨cause, rfl⟩
      | ok value =>
        rw [(htells value).mpr ((hfetched value).mp hconclude)] at hdecode
        cases hdecode

/-- The three programs make the same call, and what the client does with the result is all they
differ in. -/
theorem send_alike_fetch (client : Client) (item : Item) :
    ((send item.command).run client).Alike
      (fun sent fetched => fetched = client.conclude item.query item.query.value sent.1)
      ((fetch item).run client) := by
  rw [send_run, fetch_run]
  exact ⟨rfl, fun _ => rfl⟩

theorem send_alike_issue (client : Client) (item : Item) :
    ((send item.command).run client).Alike
      (fun sent issued => issued = client.settle item.typed sent.1)
      ((issue item.typed).run client) := by
  rw [send_run, issue_run client (Nat.le_refl _) item.commandText?_typed]
  exact ⟨rfl, fun _ => rfl⟩

theorem send_leads (client : Client) (command : String) :
    ((send command).run client).Leads (fun _ result => Exchange.Blames result)
      (fun sent => Exchange.Blames sent.1) [client.call command Limits.response] :=
  ⟨[], rfl, fun _ hblames => ⟨rfl, hblames⟩⟩

variable {τ : Type} [Transport τ]

/-- Whatever a command that was sent comes to, it blames one of the causes of an exchange. -/
theorem blames_of_sent {client : Client} {command : String}
    {changes : List (Station τ → Station τ)} {station : Station τ} {result : Exchange.Result}
    {after : Client}
    (h : (Course.amid Conversation.step changes { program := (send command).run client }
      station).1 = .finished (result, after)) : Exchange.Blames result := by
  have hmeets := Course.amid_meets (Conversation.step_leads fun call stage (station : Station τ) =>
      Exchange.step_mayBlame call stage station) changes
    { program := (send command).run client } station ⟨_, send_leads client command⟩
  cases hrun : Course.amid Conversation.step changes { program := (send command).run client }
    station with
  | mk progress final =>
    rw [hrun] at hmeets h
    cases h
    exact hmeets

/-- To ask for an item and to send its typed command, from the same state and whatever transport,
modem and others do, is to send the command of the item and take its response: it does the same to
the station at every step, with all its calls on the transport, its publications and the alignment
it leaves, and comes to its end at the same time. A failure of the exchange is the result of both,
and both find the same value. Where there is none, asking for the item may blame anything, and the
typed command did not parse. -/
theorem fetch_agrees_with_issue (item : Item) (client : Client) (hroomy : client.Roomy)
    (changes : List (Station τ → Station τ)) (station : Station τ) :
    let sent :=
      Course.amid Conversation.step changes { program := (send item.command).run client } station
    let fetched :=
      Course.amid Conversation.step changes { program := (fetch item).run client } station
    let issued :=
      Course.amid Conversation.step changes { program := (issue item.typed).run client } station
    (fetched.2 = sent.2 ∧ issued.2 = sent.2) ∧
      (fetched.1.result?.isSome = sent.1.result?.isSome ∧
        issued.1.result?.isSome = sent.1.result?.isSome) ∧
      (∀ value, (∃ after, fetched.1 = .finished (.ok value, after)) ↔
        ∃ after, issued.1 = .finished (.ok value, after)) ∧
      ∀ result own, sent.1 = .finished (result, own) →
        ∃ one two after after', fetched.1 = .finished (one, after) ∧
          issued.1 = .finished (two, after') ∧ Agrees result one two ∧
          after.Roomy ∧ after'.Roomy := by
  intro sent fetched issued
  obtain ⟨hfetched, hfetching⟩ :=
    Conversation.amid_alike (send_alike_fetch client item) changes .queued station
  obtain ⟨hissued, hissuing⟩ :=
    Conversation.amid_alike (send_alike_issue client item) changes .queued station
  have hends : ∀ result own, sent.1 = .finished (result, own) →
      ∃ one two after after', fetched.1 = .finished (one, after) ∧
        issued.1 = .finished (two, after') ∧ Agrees result one two ∧
        after.Roomy ∧ after'.Roomy := by
    intro result own hsent
    obtain ⟨⟨one, after⟩, hone, hconclude⟩ := hfetching.finished hsent
    obtain ⟨⟨two, after'⟩, htwo, hsettle⟩ := hissuing.finished hsent
    have hagrees := agrees_conclude_settle hroomy item (blames_of_sent hsent)
    have hafter := hroomy.conclude item.query item.query.value result
    have hafter' := hroomy.settle item.typed result
    rw [← hconclude] at hagrees hafter
    rw [← hsettle] at hagrees hafter'
    exact ⟨one, two, after, after', hone, htwo, hagrees, hafter, hafter'⟩
  -- whichever of them has come to an end, the exchange has come to its end before
  have hsent {β : Type} {course : Progress (Conversation β) β} {found : β}
      (hsome : sent.1.result?.isSome = course.result?.isSome) (h : course = .finished found) :
      ∃ result own, sent.1 = .finished (result, own) := by
    rw [h] at hsome
    obtain ⟨⟨result, own⟩, hresult⟩ := Option.isSome_iff_exists.mp hsome
    exact ⟨result, own, Progress.eq_finished_of_result? hresult⟩
  refine ⟨⟨hfetched.symm, hissued.symm⟩,
    ⟨hfetching.isSome_result?.symm, hissuing.isSome_result?.symm⟩, fun value => ⟨?_, ?_⟩, hends⟩
  · rintro ⟨own, hvalue⟩
    obtain ⟨result, own, hresult⟩ := hsent hfetching.isSome_result? hvalue
    obtain ⟨one, two, after, after', hone, htwo, hagrees, -, -⟩ := hends result own hresult
    cases hone.symm.trans hvalue
    exact ⟨after', htwo.trans (by rw [(hagrees.ok_iff value).mp rfl])⟩
  · rintro ⟨own, hvalue⟩
    obtain ⟨result, own, hresult⟩ := hsent hissuing.isSome_result? hvalue
    obtain ⟨one, two, after, after', hone, htwo, hagrees, -, -⟩ := hends result own hresult
    cases htwo.symm.trans hvalue
    exact ⟨after, hone.trans (by rw [(hagrees.ok_iff value).mpr rfl])⟩

/-- A modem that answers so when it is asked for its band. -/
def bandStation (reply : Octets) : Station Bench.Modem where
  transport :=
    { rules :=
        [{ request := Octets.ofText "AT%XCBAND", replies := [[{ content := .data reply }]] }] }

set_option maxRecDepth 8000 in
/-- The slots still hold another response. The band is found either way. Bytes that are no text are
a failure of the transport for one of them and do not parse for the other. -/
theorem fetch_agrees_with_issue_band :
    let client : Client := { settings := {}, slots := Slots.full.fill [.short 7] }
    let issued (reply : Octets) :=
      Course.amid Conversation.step (List.replicate 5 id)
        { program := (issue Item.currentBand.typed).run client } (bandStation reply)
    client.Roomy ∧
      (∃ after, (issued (Octets.ofText "%XCBAND: 20\r\nOK\r\n")).1 =
        .finished (.ok (.number 20), after)) ∧
      ∃ after, (issued (0xff :: Octets.ofText "\r\nOK\r\n")).1 =
        .finished (.error (.command .parse), after) := by
  intro client issued
  have hroomy : client.Roomy := by rfl
  have hfound : (Course.amid Conversation.step (List.replicate 5 id)
      { program := (fetch .currentBand).run client }
        (bandStation (Octets.ofText "%XCBAND: 20\r\nOK\r\n"))).1 = .finished (.ok (.number 20),
          { client with slots.cells := [.short 20] ++ .replicate 9 .empty }) := by cbv
  have hfailed : (Course.amid Conversation.step (List.replicate 5 id)
      { program := (fetch .currentBand).run client }
        (bandStation (0xff :: Octets.ofText "\r\nOK\r\n"))).1 =
          .finished (.error .transport, client) := by cbv
  have hsent : (Course.amid Conversation.step (List.replicate 5 id)
      { program := (send Item.currentBand.command).run client }
        (bandStation (0xff :: Octets.ofText "\r\nOK\r\n"))).1 =
          .finished (.ok [0xff], client) := by cbv
  obtain ⟨-, -, hvalues, -⟩ := fetch_agrees_with_issue .currentBand client hroomy
    (List.replicate 5 id) (bandStation (Octets.ofText "%XCBAND: 20\r\nOK\r\n"))
  obtain ⟨-, -, -, hends⟩ := fetch_agrees_with_issue .currentBand client hroomy
    (List.replicate 5 id) (bandStation (0xff :: Octets.ofText "\r\nOK\r\n"))
  obtain ⟨one, two, after, after', hone, htwo, hresult, -, -⟩ := hends _ _ hsent
  cases hone.symm.trans hfailed
  refine ⟨hroomy, (hvalues (.number 20)).mp ⟨_, hfound⟩, after', ?_⟩
  rcases hresult with ⟨value, hvalue, -⟩ | ⟨-, rfl⟩
  · cases hvalue
  · exact htwo

end Client

end CellModem
