import CellModem.Exchange
import CellModem.Proofs.Journal
import CellModem.Proofs.Reception

/-!
How an exchange ends, whatever the transport does and whenever its steps are taken. The invariant
says for each stage how the request stands, and while the response comes in that the buffer is in
step with it. Each way to end leaves its own trace in the alignment of the stream.
-/

namespace CellModem

namespace Realignment

variable {τ : Type} [Transport τ]

/-- Getting rid of a leftover hands nothing to the transport and keeps the lock. The stream is
aligned at the end. -/
theorem step_keeps (realignment : Realignment) (station : Station τ) :
    Course.Meets
      (fun _ next => next.standing.locked = station.standing.locked ∧
        next.standing.requests = station.standing.requests)
      (fun _ next => next.standing.locked = station.standing.locked ∧
        next.standing.requests = station.standing.requests ∧ next.standing.alignment = .aligned)
      (realignment.step station) := by
  obtain ⟨purge, timer⟩ := realignment
  unfold step
  by_cases hdone : purge.isDone
  · simp only [hdone, if_true]
    simp only [Course.Meets, Station.standing_align, and_self]
  · simp only [hdone]
    have hread := station.standing_read .realignment purge.buffer.room
    cases hrun : station.read .realignment purge.buffer.room with
    | mk attempt next =>
      rw [hrun] at hread
      cases attempt with
      | waiting =>
        cases hask : timer.ask next.now with
        | some later =>
          simp [Course.Meets, hask, hread]
        | none =>
          simp [Course.Meets, hask, Station.standing_align, hread]
      | failed =>
        simp [Course.Meets, Station.standing_align, hread]
      | done chunk =>
        by_cases hend : chunk.val = []
        · simp [Course.Meets, hend, Station.standing_align, hread]
        · simp [Course.Meets, hend, Station.standing_publishAll, hread]

end Realignment

namespace Exchange

/-- The result of an exchange that has seen its final result. -/
def conclusion : Line.Verdict → Octets → Result
  | .accepted, payload => .ok payload
  | .refused, _ => .error .transport

/-- The data lines of the response and its unfinished rest take up the whole buffer. -/
def Overflows (call : Call) (reply : Octets) : Prop :=
  call.size ≤ (Line.body (Octets.ofText call.command) (Line.split reply).1).length +
    (Line.split reply).2.length

/-- How the request stands while the exchange is under way. -/
def Stands (call : Call) (before : List Octets) : Stage → Standing → Prop
  | .queued, standing => standing.requests = before
  | .realigning request _, standing =>
    call.request? = some request ∧ standing.locked = true ∧ standing.requests = before
  | .sending request _ false, standing =>
    call.request? = some request ∧ standing.locked = true ∧ standing.alignment = .aligned ∧
      standing.requests = before
  | .sending request _ true, standing =>
    call.request? = some request ∧ standing = ⟨true, .aligned, before ++ [request], false, []⟩
  | .flushing _ _, standing =>
    ∃ request, call.request? = some request ∧
      standing = ⟨true, .aligned, before ++ [request], false, []⟩
  | .receiving buffer _, standing =>
    ∃ request, call.request? = some request ∧
      standing = ⟨true, .aligned, before ++ [request], true, standing.reply⟩ ∧
      Reception.Taken (Octets.ofText call.command) standing.reply buffer ∧
      buffer.storage.length = call.size

/-- How an exchange may end, with its result and how the request stands then. But for a request that
is too long, it was handed over once, and the lock is given back. -/
inductive Ends (call : Call) (before : List Octets) : Result → Standing → Prop where
  | unsendable {standing : Standing} (hrequest : call.request? = none)
      (hrequests : standing.requests = before) :
      Ends call before (.error .invalidArgument) standing
  /-- The time for the response was over. -/
  | timedOut {request reply : Octets} {flushed : Bool} (hrequest : call.request? = some request)
      (hunended : Line.Unended (Octets.ofText call.command) reply) :
      Ends call before (.error .timeout)
        ⟨false, .awaitingVerdict, before ++ [request], flushed, reply⟩
  | overflowed {request reply : Octets} (hrequest : call.request? = some request)
      (hunended : Line.Unended (Octets.ofText call.command) reply)
      (hfull : Overflows call reply) :
      Ends call before (.error .transport)
        ⟨false, .awaitingVerdict, before ++ [request], true, reply⟩
  /-- The transport failed, or the stream ended. -/
  | failed {request reply : Octets} {flushed : Bool} (hrequest : call.request? = some request)
      (hunended : Line.Unended (Octets.ofText call.command) reply)
      (hroom : flushed = true → ¬ Overflows call reply) :
      Ends call before (.error .transport) ⟨false, .aligned, before ++ [request], flushed, reply⟩
  | concluded {request reply : Octets} {lines : List Octets} {verdict : Line.Verdict}
      {alignment : Alignment} (hrequest : call.request? = some request)
      (hconcludes : Line.Concludes (Octets.ofText call.command) reply lines verdict)
      (halignment : alignment = .aligned ∨
        alignment = .midLine ∧ (Line.split reply).2 ≠ []) :
      Ends call before (conclusion verdict (Line.payload (Octets.ofText call.command) lines))
        ⟨false, alignment, before ++ [request], true, reply⟩

section Requests

variable {call : Call} {before : List Octets} {request : Octets} {standing : Standing}
  (hrequest : call.request? = some request)

include hrequest

theorem Stands.requests {stage : Stage} (h : Stands call before stage standing) :
    standing.requests = before ∨ standing.requests = before ++ [request] := by
  match stage, h with
  | .queued, hrequests => exact Or.inl hrequests
  | .realigning _ _, ⟨_, _, hrequests⟩ => exact Or.inl hrequests
  | .sending _ _ false, ⟨_, _, _, hrequests⟩ => exact Or.inl hrequests
  | .sending written _ true, ⟨hwritten, hstanding⟩ =>
    rw [hstanding, Option.some.inj (hrequest.symm.trans hwritten)]
    exact Or.inr rfl
  | .flushing _ _, ⟨written, hwritten, hstanding⟩ =>
    rw [hstanding, Option.some.inj (hrequest.symm.trans hwritten)]
    exact Or.inr rfl
  | .receiving _ _, ⟨written, hwritten, hstanding, _⟩ =>
    rw [hstanding, Option.some.inj (hrequest.symm.trans hwritten)]
    exact Or.inr rfl

theorem Ends.requests {result : Result} (h : Ends call before result standing) :
    standing.requests = before ++ [request] := by
  cases h with
  | unsendable hnone =>
    rw [hnone] at hrequest
    cases hrequest
  | timedOut hwritten => rw [Option.some.inj (hrequest.symm.trans hwritten)]
  | overflowed hwritten => rw [Option.some.inj (hrequest.symm.trans hwritten)]
  | failed hwritten => rw [Option.some.inj (hrequest.symm.trans hwritten)]
  | concluded hwritten => rw [Option.some.inj (hrequest.symm.trans hwritten)]

end Requests

variable {τ : Type}

/-- What becomes of the station with the bytes that end a response. -/
def close (station : Station τ) (cut : Bool) (signals : List Signal) : Station τ :=
  if cut then (station.publishAll .response signals).align .midLine
  else station.publishAll .response signals

theorem received_ended (timer : Timer) (station : Station τ) (ending : Reception.Ending)
    (signals : List Signal) :
    received timer station (.ended ending, signals) =
      finish (close station ending.cut signals) (conclusion ending.verdict ending.payload) := by
  cases hverdict : ending.verdict <;> simp [received, conclusion, close, hverdict]

theorem standing_close (station : Station τ) (cut : Bool) (signals : List Signal) :
    (close station cut signals).standing =
      { station.standing with
        alignment := if cut then .midLine else station.standing.alignment } := by
  cases cut with
  | false => exact station.standing_publishAll .response signals
  | true =>
    refine (Station.standing_align _ .midLine).trans ?_
    rw [Station.standing_publishAll]
    rfl

theorem transport_close (station : Station τ) (cut : Bool) (signals : List Signal) :
    (close station cut signals).transport = station.transport := by
  have hpublished : (station.publishAll .response signals).transport = station.transport := by
    rw [Station.publishAll_eq]
  cases cut <;> exact hpublished

/-- What is said of the outcome of a step. -/
abbrev Upholds (call : Call) (before : List Octets)
    (outcome : Progress Stage Result × Station τ) : Prop :=
  Course.Meets (fun stage station => Stands call before stage station.standing)
    (fun result station => Ends call before result station.standing) outcome

section Steps

variable {call : Call} {before : List Octets} {request : Octets} {station : Station τ}

theorem upholds_wait {reply : Octets} {flushed : Bool} (timer : Timer) {stage : Timer → Stage}
    (hrequest : call.request? = some request)
    (hstanding : station.standing = ⟨true, .aligned, before ++ [request], flushed, reply⟩)
    (hunended : Line.Unended (Octets.ofText call.command) reply)
    (hstage : ∀ timer, Stands call before (stage timer) station.standing) :
    Upholds call before (wait station timer stage) := by
  unfold wait
  cases timer.ask station.now with
  | some later => exact hstage later
  | none =>
    simp only [Upholds, Course.Meets, abandon, finish, Station.standing_unlock,
      Station.standing_align, hstanding]
    exact Ends.timedOut hrequest hunended

theorem upholds_finish_failed {reply : Octets} {flushed : Bool}
    (hrequest : call.request? = some request)
    (hstanding : station.standing = ⟨true, .aligned, before ++ [request], flushed, reply⟩)
    (hunended : Line.Unended (Octets.ofText call.command) reply)
    (hroom : flushed = true → ¬ Overflows call reply) :
    Upholds call before (finish station (.error .transport)) := by
  simp only [Upholds, Course.Meets, finish, Station.standing_unlock, hstanding]
  exact Ends.failed hrequest hunended hroom

theorem upholds_sent {timer : Timer} {outcome : Attempt Nat × Station τ}
    (hrequest : call.request? = some request)
    (hstanding : outcome.2.standing = ⟨true, .aligned, before ++ [request], false, []⟩) :
    Upholds call before (sent request timer outcome) := by
  have hunended := Line.unended_nil (Octets.ofText call.command)
  obtain ⟨attempt, station⟩ := outcome
  cases attempt with
  | waiting =>
    exact upholds_wait timer hrequest hstanding hunended fun later => ⟨hrequest, hstanding⟩
  | failed => exact upholds_finish_failed hrequest hstanding hunended Bool.noConfusion
  | done taken =>
    by_cases htaken : taken = request.length
    · simp only [sent, htaken, if_true]
      exact ⟨request, hrequest, hstanding⟩
    · simp only [sent, htaken, if_false]
      exact upholds_finish_failed hrequest hstanding hunended Bool.noConfusion

theorem upholds_flushed {timer : Timer} {outcome : Attempt Unit × Station τ}
    (hrequest : call.request? = some request)
    (hstanding : outcome.2.standing =
      ⟨true, .aligned, before ++ [request], outcome.1.isDone, []⟩) :
    Upholds call before (flushed call timer outcome) := by
  have hunended := Line.unended_nil (Octets.ofText call.command)
  obtain ⟨attempt, station⟩ := outcome
  cases attempt with
  | waiting =>
    exact upholds_wait timer hrequest hstanding hunended
      fun later => ⟨request, hrequest, hstanding⟩
  | failed => exact upholds_finish_failed hrequest hstanding hunended Bool.noConfusion
  | done result =>
    refine ⟨request, hrequest, ?_⟩
    rw [hstanding]
    exact ⟨rfl, Reception.taken_empty _ _, List.length_replicate⟩

/-- The bytes of a read either leave the response without an end, or end it. -/
theorem upholds_received {timer : Timer} {reply : Octets} {buffer : Buffer}
    {chunk : Chunk buffer.room} (hrequest : call.request? = some request)
    (htaken : Reception.Taken (Octets.ofText call.command) reply buffer)
    (hsize : buffer.storage.length = call.size)
    (hstanding : station.standing =
      ⟨true, .aligned, before ++ [request], true, reply ++ chunk.val⟩) :
    Upholds call before (received timer station
      (Reception.absorb (Octets.ofText call.command) buffer chunk)) := by
  cases habsorb : Reception.absorb (Octets.ofText call.command) buffer chunk with
  | mk outcome signals =>
    cases outcome with
    | unfinished next =>
      obtain ⟨hnext, hlength⟩ := Reception.taken_of_absorb htaken habsorb
      refine ⟨request, hrequest, ?_⟩
      simp only [Station.standing_publishAll, hstanding, true_and]
      exact ⟨hnext, hlength.trans hsize⟩
    | ended ending =>
      obtain ⟨lines, hconcludes, hpayload, hcut⟩ :=
        Reception.concludes_of_absorb htaken habsorb
      have halignment : (if ending.cut then Alignment.midLine else .aligned) = .aligned ∨
          (if ending.cut then Alignment.midLine else .aligned) = .midLine ∧
            (Line.split (reply ++ chunk.val)).2 ≠ [] := by
        cases hcase : ending.cut with
        | false => exact Or.inl rfl
        | true => exact Or.inr ⟨rfl, (hcut.mp hcase).2⟩
      rw [received_ended, hpayload]
      simp only [Upholds, Course.Meets, finish, Station.standing_unlock, standing_close, hstanding]
      exact Ends.concluded hrequest hconcludes halignment

variable [Transport τ]

theorem upholds_queued (h : station.standing.requests = before) :
    Upholds call before (step call .queued station) := by
  unfold step
  cases hrequest : call.request? with
  | none => exact Ends.unsendable hrequest h
  | some request =>
    by_cases hlocked : station.locked
    · simp only [hlocked, if_true]
      exact h
    · by_cases haligned : station.lock.alignment = .aligned
      · simp only [hlocked, haligned, if_true]
        refine ⟨hrequest, ?_, ?_, ?_⟩
        · rw [Station.standing_lock]
        · exact haligned
        · rw [Station.standing_lock]
          exact h
      · simp only [hlocked, haligned, if_false]
        refine ⟨hrequest, ?_, ?_⟩
        · rw [Station.standing_lock]
        · rw [Station.standing_lock]
          exact h

theorem upholds_realigning {realignment : Realignment} (hrequest : call.request? = some request)
    (hlocked : station.standing.locked = true) (hrequests : station.standing.requests = before) :
    Upholds call before (step call (.realigning request realignment) station) := by
  have hkeeps := realignment.step_keeps station
  cases hrun : realignment.step station with
  | mk progress next =>
    rw [hrun] at hkeeps
    simp only [step, hrun]
    cases progress with
    | moved later =>
      exact ⟨hrequest, hkeeps.1.trans hlocked, hkeeps.2.trans hrequests⟩
    | waiting later =>
      exact ⟨hrequest, hkeeps.1.trans hlocked, hkeeps.2.trans hrequests⟩
    | finished result =>
      exact ⟨hrequest, hkeeps.1.trans hlocked, hkeeps.2.2, hkeeps.2.1.trans hrequests⟩

theorem upholds_receiving {buffer : Buffer} {timer : Timer}
    (h : Stands call before (.receiving buffer timer) station.standing) :
    Upholds call before (step call (.receiving buffer timer) station) := by
  obtain ⟨request, hrequest, hstanding, htaken, hsize⟩ := h
  have hroom := htaken.room_add
  rw [hsize] at hroom
  have hread := station.standing_read .response buffer.room
  rw [hstanding] at hread
  unfold step
  by_cases hfull : buffer.room = 0
  · have hoverflows : Overflows call station.standing.reply := by
      unfold Overflows
      omega
    simp only [hfull, if_true]
    simp only [Upholds, Course.Meets, abandon, finish, Station.standing_unlock,
      Station.standing_align]
    rw [hstanding]
    exact Ends.overflowed hrequest htaken.unended hoverflows
  · have hfits : ¬ Overflows call station.standing.reply := by
      unfold Overflows
      omega
    simp only [hfull, if_false]
    cases hrun : station.read .response buffer.room with
    | mk attempt next =>
      rw [hrun] at hread
      cases attempt with
      | waiting =>
        refine upholds_wait timer hrequest hread htaken.unended fun later => ?_
        rw [hread]
        exact ⟨request, hrequest, rfl, htaken, hsize⟩
      | failed => exact upholds_finish_failed hrequest hread htaken.unended fun _ => hfits
      | done chunk =>
        by_cases hend : chunk.val = []
        · simp only [hend, List.append_nil] at hread
          simp only [hend, if_true]
          exact upholds_finish_failed hrequest hread htaken.unended fun _ => hfits
        · simp only [hend, if_false]
          exact upholds_received hrequest htaken hsize hread

end Steps

variable [Transport τ]

theorem step_upholds {call : Call} {before : List Octets} (stage : Stage) (station : Station τ)
    (h : Stands call before stage station.standing) :
    Upholds call before (step call stage station) := by
  cases stage with
  | queued => exact upholds_queued h
  | realigning request realignment => exact upholds_realigning h.1 h.2.1 h.2.2
  | sending request timer begun =>
    cases begun with
    | false =>
      obtain ⟨hrequest, hlocked, haligned, hrequests⟩ := h
      apply upholds_sent hrequest
      rw [Station.standing_write, ← hrequests, ← hlocked, ← haligned]
      rfl
    | true =>
      obtain ⟨hrequest, hstanding⟩ := h
      apply upholds_sent hrequest
      rw [Station.standing_awaitWrite]
      exact hstanding
  | flushing timer begun =>
    obtain ⟨request, hrequest, hstanding⟩ := h
    cases begun with
    | false =>
      apply upholds_flushed hrequest
      simp only [Station.standing_flush, hstanding, Bool.or_false]
    | true =>
      apply upholds_flushed hrequest
      simp only [Station.standing_awaitFlush, hstanding, Bool.or_false]
  | receiving buffer timer => exact upholds_receiving h

/-- However the steps of an exchange are taken, its request is handed over once at most, and it ends
in one of the ways there are. -/
theorem follow_upholds (call : Call) (moments : List Millis) (station : Station τ) :
    Upholds call station.requests (Course.follow (step call) moments .queued station) :=
  Course.follow_meets step_upholds (fun _ _ _ h => h) moments .queued station rfl

end Exchange

end CellModem
