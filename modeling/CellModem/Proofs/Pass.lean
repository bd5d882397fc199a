import CellModem.Proofs.Survey
import CellModem.Proofs.Termination

/-!
What one pass of a report hands to the transport. A program whose calls are the same whatever comes
of them begins one write for each, in order, and a write that has begun is never begun anew. So what
has been written at any time is a front part of all its requests, and all of them when it has ended;
and it does end, since each of its exchanges does.
-/

namespace CellModem

namespace Exchange

theorem Offered.prefix_request? {call : Call} {stage : Stage} {requests : List Octets}
    (h : Offered call stage requests) : requests <+: call.request?.toList := by
  cases stage with
  | queued => exact (show requests = [] from h) ▸ List.nil_prefix
  | realigning request realignment => exact h.2 ▸ List.nil_prefix
  | sending request timer begun =>
    cases begun with
    | false => exact h.2 ▸ List.nil_prefix
    | true => exact (show requests = _ from h) ▸ List.prefix_refl _
  | flushing timer begun => exact (show requests = _ from h) ▸ List.prefix_refl _
  | receiving buffer timer => exact (show requests = _ from h) ▸ List.prefix_refl _

/-- An exchange that had the lock gives it back. -/
theorem Ends.unlocked {call : Call} {before : List Octets} {request : Octets} {result : Result}
    {standing : Standing} (h : Ends call before result standing)
    (hrequest : call.request? = some request) : standing.locked = false := by
  cases h with
  | unsendable hnone =>
    rw [hnone] at hrequest
    cases hrequest
  | timedOut | overflowed | failed | concluded => rfl

/-- The writes that a step begins. -/
theorem written_step {τ : Type} [Transport τ] (call : Call) (stage : Stage)
    (station : Station (Logged τ)) :
    (System.accesses station (step call stage station).2).filterMap Access.written? =
      stage.offers := by
  have hlogs : station.Logs (step call stage station).2 :=
    step_relates Station.active_logs call stage station
  have hrequests := hlogs.requests_eq hlogs.log_eq
  exact List.append_cancel_left (hrequests.symm.trans (requests_step call stage station))

end Exchange

namespace Conversation

variable {α τ : Type} [Transport τ]

/-- The requests whose writes a conversation itself begins, in order, while others change the
station in between. -/
def written : List (Station (Logged τ) → Station (Logged τ)) → Conversation α →
    Station (Logged τ) → List Octets
  | [], _, _ => []
  | change :: changes, talk, station =>
    let (progress, next) := talk.step (change station)
    let later :=
      match progress with
      | .moved talk | .waiting talk => written changes talk next
      | .finished _ => []
    (System.accesses (change station) next).filterMap Access.written? ++ later

/-- The requests that have been handed over for the present call. -/
def Offered (talk : Conversation α) (requests : List Octets) : Prop :=
  match talk.program with
  | .done _ => requests = []
  | .ask call _ => Exchange.Offered call talk.stage requests

/-- The requests of calls that are not too long. -/
def requests (calls : List Call) : List Octets :=
  calls.flatMap fun call => call.request?.toList

theorem offered_start (program : Dialogue α) : Offered { program } [] := by
  cases program <;> rfl

/-- What has been written is a front part of what is to be written, and all of it at the end. -/
theorem written_prefix {post : α → Prop} {talk : Conversation α} {calls : List Call}
    (hmakes : talk.program.Makes post calls) {offered : List Octets}
    (hoffered : talk.Offered offered)
    (changes : List (Station (Logged τ) → Station (Logged τ))) (station : Station (Logged τ)) :
    offered ++ written changes talk station <+: requests calls ∧
      ((Course.amid step changes talk station).1.result?.isSome →
        offered ++ written changes talk station = requests calls) := by
  induction changes generalizing talk calls offered station with
  | nil =>
    refine ⟨?_, fun hsome => by cases hsome⟩
    obtain ⟨program, stage⟩ := talk
    rw [written, List.append_nil]
    cases program with
    | done value => exact (show offered = [] from hoffered) ▸ List.nil_prefix
    | ask call next =>
      obtain ⟨later, rfl, -⟩ := hmakes
      exact (Exchange.Offered.prefix_request? hoffered).trans (List.prefix_append _ _)
  | cons change changes ih =>
    obtain ⟨program, stage⟩ := talk
    cases program with
    | done value =>
      obtain ⟨rfl, -⟩ := hmakes
      obtain rfl : offered = [] := hoffered
      have hnone : written (change :: changes) { program := .done value, stage } station = [] := by
        simp [written, step, System.accesses]
      rw [hnone]
      exact ⟨List.prefix_refl _, fun _ => rfl⟩
    | ask call next =>
      have hwritten := Exchange.written_step call stage (change station)
      have hstep := Exchange.step_offered hoffered (change station)
      have htalk (further : Exchange.Stage) :
          (⟨.ask call next, further⟩ : Conversation α).program.Makes post calls := hmakes
      cases hrun : Exchange.step call stage (change station) with
      | mk progress after =>
        rw [hrun] at hwritten hstep
        cases progress with
        | moved further =>
          have hlater := ih (htalk further) hstep after
          simp only [written, Course.amid, step, hrun, hwritten]
          rw [← List.append_assoc]
          exact hlater
        | waiting further =>
          have hlater := ih (htalk further) hstep after
          simp only [written, Course.amid, step, hrun, hwritten]
          rw [← List.append_assoc]
          exact hlater
        | finished result =>
          obtain ⟨later, rfl, hnext⟩ := hmakes
          have htalk : ({ program := next result } : Conversation α).program.Makes post later :=
            hnext result
          obtain ⟨hfront, hall⟩ := ih htalk (offered_start _) after
          have hown : offered ++ stage.offers = call.request?.toList := hstep
          simp only [written, Course.amid, step, hrun, hwritten, requests, List.flatMap_cons]
          rw [← List.append_assoc, hown]
          exact ⟨(List.prefix_append_right_inj _).mpr hfront,
            fun hsome => congrArg (call.request?.toList ++ ·) (hall hsome)⟩

/-- A stage of a program with these calls to come, in which all that it owes of `owed` is what they
hand over. -/
structure Owes (first : Station (Logged τ)) (owed : List Octets) (calls : List Call)
    (station : Station (Logged τ)) : Prop where
  unlocked : station.locked = false
  logs : first.Logs station
  requests_eq : station.requests ++ requests calls = first.requests ++ owed

/-- An exchange comes to its end and leaves the rest to those behind it. -/
theorem Owes.completes (hexhaustible : Exhaustible τ) {first : Station (Logged τ)}
    {owed : List Octets} {call : Call} {later : List Call} {station : Station (Logged τ)}
    (h : Owes first owed (call :: later) station) :
    Course.Completes (Exchange.step call) .queued station fun _ final =>
      Owes first owed later final := by
  cases hrequest : call.request? with
  | none =>
    have hrun : Exchange.step call .queued station =
        (.finished (.error .invalidArgument), station) := by
      simp only [Exchange.step, hrequest]
    have hrest := h.requests_eq
    rw [requests, List.flatMap_cons, hrequest] at hrest
    exact Course.completes_of_finished hrun ⟨h.unlocked, h.logs, hrest⟩
  | some request =>
    let invariant : Exchange.Stage → Station (Logged τ) → Prop := fun stage next =>
      Exchange.Stands call station.requests stage next.standing ∧ first.Logs next
    have hends : Course.Completes (Exchange.step call) .queued station fun result final =>
        True ∧ Exchange.Ends call station.requests result final.standing ∧ first.Logs final := by
      refine (Exchange.completes_of_unlocked hexhaustible.logged call h.unlocked).upholds ?_
        (fun _ _ _ hnext => hnext) (show invariant .queued station from ⟨rfl, h.logs⟩)
      rintro stage next ⟨hstands, hlogs⟩
      have hupholds := Exchange.step_upholds stage next hstands
      have hlater : first.Logs (Exchange.step call stage next).2 :=
        hlogs.trans (Exchange.step_relates Station.active_logs call stage next)
      cases hrun : Exchange.step call stage next with
      | mk progress after =>
        rw [hrun] at hupholds hlater
        cases progress <;> exact ⟨hupholds, hlater⟩
    refine hends.imp ?_
    rintro result final ⟨-, hended, hlogs⟩
    have hrequests := hended.requests hrequest
    have hunlocked : final.locked = false := hended.unlocked hrequest
    refine ⟨hunlocked, hlogs, ?_⟩
    have hrest := h.requests_eq
    rw [requests, List.flatMap_cons, hrequest, Option.toList_some, ← List.append_assoc] at hrest
    exact (congrArg (· ++ requests later) hrequests).trans hrest

/-- On a station of its own a program whose calls are the same whatever comes of them comes to its
end, and then it has written what is to be written. -/
theorem completes_writing (hexhaustible : Exhaustible τ) {post : α → Prop} {program : Dialogue α}
    {calls : List Call} (h : program.Makes post calls) {station : Station (Logged τ)}
    (hunlocked : station.locked = false) :
    Course.Completes step { program } station fun _ final =>
      (System.accesses station final).filterMap Access.written? = requests calls := by
  have hstart : Owes station (requests calls) calls station :=
    ⟨hunlocked, Station.active_logs.refl station, rfl⟩
  have hleads : program.Leads (fun _ _ => True) post calls := h.leads
  have hcompletes := completes_of_calls
    (fun call later next hnext => (Owes.completes hexhaustible hnext).imp
      fun _ _ howes => ⟨trivial, howes⟩) hleads hstart
  refine hcompletes.imp ?_
  rintro value final ⟨-, howes⟩
  have hrequests := howes.requests_eq
  rw [requests, List.flatMap_nil, List.append_nil] at hrequests
  have hlogged := howes.logs.requests_eq howes.logs.log_eq
  exact List.append_cancel_left (hlogged.symm.trans hrequests)

end Conversation

namespace Survey

/-- The commands of a pass, in order. -/
def commands : List String :=
  ["AT%XCBAND", "AT%XCBAND=?", "AT+CGDCONT?", "AT+CEMODE?", "AT+COPS?", "AT+CEREG?",
    "AT%XSYSTEMMODE?", "AT%XSIM?", "AT+CRSM=176,12258,0,0,10", "AT+CGMR", "AT%XVBAT"]

/-- Each of them is sent once, however many items it serves. -/
theorem eraseDups_requested : (requested.map Item.command).eraseDups = commands := by
  decide

theorem fetch_makes (client : Client) :
    (fetch.run client).Makes (fun _ => True)
      (commands.map fun command => client.call command Limits.response) := by
  have hmakes := collect_collects [] client
  rw [eraseDups_requested] at hmakes
  exact hmakes.imp fun _ _ => trivial

theorem request?_of_fits {client : Client} {command : String}
    (h : command.utf8ByteSize + client.settings.terminator.utf8ByteSize ≤ Limits.request)
    (size : Nat) :
    (client.call command size).request? =
      some (Octets.ofText command ++ Octets.ofText client.settings.terminator) := by
  refine if_pos ?_
  rw [List.length_append, Octets.length_ofText, Octets.length_ofText]
  exact h

theorem request?_call {client : Client} (hterminator : client.settings.terminator.utf8ByteSize ≤ 2)
    {command : String} (hcommand : command ∈ commands) (size : Nat) :
    (client.call command size).request? =
      some (Octets.ofText command ++ Octets.ofText client.settings.terminator) := by
  have hlengths : ∀ command ∈ commands, command.utf8ByteSize ≤ 24 := by decide
  exact request?_of_fits
    (Nat.le_trans (Nat.add_le_add (hlengths command hcommand) hterminator) (by decide)) size

theorem requests_pass {client : Client}
    (hterminator : client.settings.terminator.utf8ByteSize ≤ 2) :
    Conversation.requests (commands.map fun command => client.call command Limits.response) =
      commands.map fun command =>
        Octets.ofText command ++ Octets.ofText client.settings.terminator := by
  rw [Conversation.requests, List.flatMap_map, List.map_eq_flatMap]
  refine List.flatMap_congr fun command hcommand => ?_
  rw [request?_call hterminator hcommand]
  rfl

/-- Whatever the transport and the modem do, wherever the stream stands at the start and whatever
others do in between, a pass begins one write for each of its commands, in order and with all bytes
of the request: at any time those begun are the first ones, and at its end they are all. And it does
come to its end, with as much on the log, if it has the station to itself and the modem does not
send more and more at one moment. -/
theorem fetch_writes (client : Client)
    (hterminator : client.settings.terminator.utf8ByteSize ≤ 2) {τ : Type} [Transport τ]
    (station : Station (Logged τ)) :
    let requests := commands.map fun command =>
      Octets.ofText command ++ Octets.ofText client.settings.terminator
    (∀ changes : List (Station (Logged τ) → Station (Logged τ)),
      let written := Conversation.written changes { program := fetch.run client } station
      written <+: requests ∧
        ((Course.amid Conversation.step changes
          { program := fetch.run client } station).1.result?.isSome → written = requests)) ∧
      (Exhaustible τ → station.locked = false →
        Course.Completes Conversation.step { program := fetch.run client } station
          fun _ final =>
            (System.accesses station final).filterMap Access.written? = requests) := by
  intro requests
  rw [show requests = _ from (requests_pass hterminator).symm]
  refine ⟨fun changes => ?_, fun hexhaustible hunlocked => ?_⟩
  · exact Conversation.written_prefix (fetch_makes client) (Conversation.offered_start _) changes
      station
  · exact Conversation.completes_writing hexhaustible (fetch_makes client) hunlocked

/-- A modem that fails in every way there is, one after the other, and answers with garbage. -/
def faultyModem : Bench.Modem where
  wire := [⟨.data (Octets.ofText "OK\r"), 0⟩, ⟨.broken, 0⟩, ⟨.ended, 0⟩]
  writes := [.fail, .take 3, .hang, .failFlush, .hangFlush]
  fallback := [{ content := .data [0xff, 0x0a, 0x4f, 0x4b] }]

theorem fetch_writes_faulty :
    let client : Client := { settings := {} }
    let station : Station (Logged Bench.Modem) :=
      { transport := { transport := faultyModem }, alignment := .awaitingVerdict }
    client.settings.terminator.utf8ByteSize ≤ 2 ∧
      Course.Completes Conversation.step { program := fetch.run client } station fun _ final =>
        (System.accesses station final).filterMap Access.written? =
          commands.map fun command => Octets.ofText (command ++ "\r\n") := by
  intro client station
  have hterminator : client.settings.terminator.utf8ByteSize ≤ 2 := by decide
  exact ⟨hterminator, (fetch_writes client hterminator station).2 Bench.Modem.exhaustible rfl⟩

end Survey

end CellModem
