import CellModem.Proofs.Actor

/-!
Operations one at a time: each from the moment at which it obtains the lock, with nothing in between
its steps. What an operation accesses is a block of the log, and an exchange among them begins one
write, of its whole request.
-/

namespace CellModem

/-- The whole command with the terminator behind it. -/
def Call.bytes (call : Call) : Octets :=
  Octets.ofText call.command ++ Octets.ofText call.terminator

theorem Call.request?_eq_none_iff {call : Call} :
    call.request? = none ↔ Limits.request < call.bytes.length := by
  simp [request?, bytes]

theorem Call.request?_eq_some {call : Call} {request : Octets} (h : call.request? = some request) :
    request = call.bytes ∧ call.bytes.length ≤ Limits.request := by
  unfold Call.request? at h
  by_cases hfits : call.bytes.length ≤ Limits.request
  · refine ⟨?_, hfits⟩
    simp only [bytes] at hfits ⊢
    simp only [hfits, if_true] at h
    exact (Option.some.inj h).symm
  · simp only [bytes] at hfits
    simp only [hfits, if_false] at h
    cases h

/-- One operation, from the moment at which it obtains the lock. -/
structure Block (ι : Type) where
  actor : ι
  operation : Operation
  start : Millis
  /-- The moments of its later steps. -/
  later : List Millis
  accesses : List Access
  /-- What came of it, if it is over. -/
  outcome? : Option Job.Outcome

namespace Block

variable {ι τ : Type}

def notes (block : Block ι) : List (Note ι) :=
  .began block.actor block.operation block.start ::
    (block.accesses.map (.accessed block.actor block.operation) ++
      block.outcome?.toList.map (.ended block.actor block.operation))

/-- A block before its first step. -/
def opening (actor : ι) (operation : Operation) (start : Millis) : Block ι :=
  { actor, operation, start, later := [], accesses := [], outcome? := none }

variable [Transport τ]

/-- The block with one more step, on that station. -/
def stepped (block : Block ι) (later : List Millis) (station : Station (Logged τ)) (job : Job) :
    Block ι :=
  { block with
    later
    accesses := block.accesses ++ System.accesses station (job.step station).2
    outcome? := (job.step station).1.result? }

/-- The operation is executed at its moments, on a station whose lock is free and with nothing in
between, and comes so far. -/
structure Runs (block : Block ι) (first : Station (Logged τ))
    (progress : Progress Job Job.Outcome) (last : Station (Logged τ)) : Prop where
  sendable : block.operation.isSendable = true
  free : first.locked = false
  onTime : first.now ≤ block.start
  run : Course.follow Job.step (block.start :: block.later) block.operation.start first =
    (progress, last)
  log : last.transport.log = first.transport.log ++ block.accesses
  outcome : block.outcome? = progress.result?

end Block

/-- Blocks are executed one at a time. -/
inductive Serial {ι τ : Type} [Transport τ] :
    Station (Logged τ) → List (Block ι) → Station (Logged τ) → Prop where
  | nil (station : Station (Logged τ)) : Serial station [] station
  | snoc {first middle last : Station (Logged τ)} {blocks : List (Block ι)} {block : Block ι}
      {progress : Progress Job Job.Outcome} (hserial : Serial first blocks middle)
      (hblock : block.Runs middle progress last) : Serial first (blocks ++ [block]) last

namespace Job

variable {τ : Type} [Transport τ] {operation : Operation} {moments : List Millis}
  {first last station : Station (Logged τ)} {accesses : List Access} {job : Job}

/-- Where a run goes on after a step: whoever waits is in a state like everybody else. -/
def settled : Progress Job Outcome → Progress Job Outcome
  | .moved job | .waiting job => .moved job
  | .finished outcome => .finished outcome

theorem result?_settled (progress : Progress Job Outcome) :
    (settled progress).result? = progress.result? := by
  cases progress <;> rfl

theorem follow_singleton (job : Job) (station : Station τ) (moment : Millis) :
    Course.follow step [moment] job station =
      (settled (job.step (station.passTo moment)).1, (job.step (station.passTo moment)).2) := by
  unfold Course.follow
  cases hrun : job.step (station.passTo moment) with
  | mk progress next =>
    cases progress <;> rfl

/-- A run goes on with a step that is taken on another station, as long as the two agree. -/
theorem follow_next
    (hrun : Course.follow step moments operation.start first = (.moved job, last))
    (hlog : last.transport.log = first.transport.log ++ accesses)
    (hagrees : last.Agrees station) (hnow : last.now ≤ station.now) :
    ∃ next, Course.follow step (moments ++ [station.now]) operation.start first =
        (settled (job.step station).1, next) ∧
      next.transport.log = first.transport.log ++
        (accesses ++ System.accesses station (job.step station).2) ∧
      next.Agrees (job.step station).2 ∧ next.now = (job.step station).2.now := by
  have hpassed : (last.passTo station.now).Agrees station := { hagrees with }
  have htime : (last.passTo station.now).now = station.now := Nat.max_eq_right hnow
  obtain ⟨hprogress, hnext, hlater⟩ := job.step_agrees hpassed htime
  refine ⟨(job.step (last.passTo station.now)).2, ?_, ?_, hnext, hlater⟩
  · rw [Course.follow_concat hrun, follow_singleton, hprogress]
  · have hadded := (job.step_logs station).log_eq
    have hbefore : station.transport.log = first.transport.log ++ accesses := by
      rw [← hagrees.transport, hlog]
    rw [hnext.transport, hadded, hbefore, List.append_assoc]

theorem operation_of_follow
    (hrun : Course.follow step moments operation.start first = (.moved job, last)) :
    job.operation = operation := by
  have hstands := follow_stands operation moments first
  rw [hrun] at hstands
  exact hstands.1

end Job

namespace Block

variable {ι τ : Type}

/-- An exchange begins one write, of its whole request, or is still under way without one. Nothing
else begins a write. -/
def Sends (block : Block ι) : Prop :=
  match block.operation with
  | .exchange call =>
    call.bytes.length ≤ Limits.request ∧
      (block.accesses.filterMap Access.written? = [call.bytes] ∨
        block.outcome? = none ∧ block.accesses.filterMap Access.written? = [])
  | .poll _ => block.accesses.filterMap Access.written? = []

variable [Transport τ] {block : Block ι} {first last : Station (Logged τ)}
  {progress : Progress Job Job.Outcome}

/-- The writes of a block are the requests that came into the journal meanwhile. -/
theorem Runs.requests_eq (h : block.Runs first progress last) :
    last.requests = first.requests ++ block.accesses.filterMap Access.written? := by
  have hlogs : first.Logs (Course.follow Job.step (block.start :: block.later)
      block.operation.start first).2 :=
    Course.follow_relates Station.active_logs.refl Station.active_logs.trans
      (fun _ _ => Station.logs_of_same rfl rfl) Job.step_logs _ _ first
  rw [h.run] at hlogs
  exact hlogs.requests_eq h.log

theorem Runs.sends_of_exchange {call : Call} (h : block.Runs first progress last)
    (hoperation : block.operation = .exchange call) :
    call.bytes.length ≤ Limits.request ∧
      (block.accesses.filterMap Access.written? = [call.bytes] ∨
        block.outcome? = none ∧ block.accesses.filterMap Access.written? = []) := by
  have hrequests := h.requests_eq
  have hstands := Job.follow_stands block.operation (block.start :: block.later) first
  rw [h.run, hoperation] at hstands
  obtain ⟨request, hrequest⟩ : ∃ request, call.request? = some request :=
    Option.isSome_iff_exists.mp (hoperation ▸ h.sendable :)
  obtain ⟨hbytes, hfits⟩ := Call.request?_eq_some hrequest
  have hsent (hwritten : last.requests = first.requests ++ [request]) :
      block.accesses.filterMap Access.written? = [call.bytes] := by
    rw [← hbytes]
    exact List.append_cancel_left (hrequests.symm.trans hwritten)
  have hunsent (hnone : last.requests = first.requests) :
      block.accesses.filterMap Access.written? = [] :=
    List.self_eq_append_right.mp (hnone.symm.trans hrequests)
  refine ⟨hfits, ?_⟩
  cases progress with
  | moved job =>
    rcases Job.requests_of_stands hrequest hstands.1 hstands.2 with hnone | hwritten
    · exact Or.inr ⟨h.outcome, hunsent hnone⟩
    · exact Or.inl (hsent hwritten)
  | waiting job =>
    rcases Job.requests_of_stands hrequest hstands.1 hstands.2 with hnone | hwritten
    · exact Or.inr ⟨h.outcome, hunsent hnone⟩
    · exact Or.inl (hsent hwritten)
  | finished outcome =>
    cases outcome with
    | exchanged result => exact Or.inl (hsent (Exchange.Ends.requests hrequest hstands))
    | polled result => exact hstands.elim

theorem Runs.sends_of_poll {settings : Settings} (h : block.Runs first progress last)
    (hoperation : block.operation = .poll settings) :
    block.accesses.filterMap Access.written? = [] := by
  have hstands := Job.follow_stands block.operation (block.start :: block.later) first
  rw [h.run, hoperation] at hstands
  have hsame : last.requests = first.requests := by
    cases progress with
    | moved job => exact Job.requests_of_poll hstands.1 hstands.2
    | waiting job => exact Job.requests_of_poll hstands.1 hstands.2
    | finished outcome =>
      cases outcome with
      | exchanged result => exact hstands.elim
      | polled result => exact hstands
  exact List.self_eq_append_right.mp (hsame.symm.trans h.requests_eq)

theorem Runs.sends (h : block.Runs first progress last) : block.Sends := by
  unfold Sends
  split
  case h_1 call hoperation => exact h.sends_of_exchange hoperation
  case h_2 settings hoperation => exact h.sends_of_poll hoperation

end Block

namespace Serial

variable {ι τ : Type} [Transport τ] {first last : Station (Logged τ)} {blocks : List (Block ι)}

theorem sends (h : Serial first blocks last) : ∀ block ∈ blocks, block.Sends := by
  induction h with
  | nil => simp
  | snoc hserial hblock ih =>
    intro other hother
    rcases List.mem_append.mp hother with hold | hnew
    · exact ih other hold
    · cases List.mem_singleton.mp hnew
      exact hblock.sends

/-- The log is that of the blocks, one after the other. -/
theorem log_eq (h : Serial first blocks last) :
    last.transport.log = first.transport.log ++ blocks.flatMap Block.accesses := by
  induction h with
  | nil => exact (List.append_nil _).symm
  | snoc hserial hblock ih =>
    rw [hblock.log, ih, List.flatMap_append, List.flatMap_singleton, List.append_assoc]

end Serial

end CellModem
