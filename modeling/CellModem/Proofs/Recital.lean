import CellModem.Proofs.Announcement
import CellModem.Proofs.Delivery
import CellModem.Proofs.Frame

/-!
What an exchange publishes from its request on: what the lines of the reply announce, as far as it
was read. The reply counts from the moment at which the request is handed over, so whatever was
still on the wire then belongs to it.
-/

namespace CellModem

open Line Station

namespace Exchange

variable {τ : Type}

/-- What was published since is what the lines of the reply announce so far. -/
def Recites (call : Call) (before : List Signal) (station : Station τ) : Prop :=
  station.published = before ++ answered (Octets.ofText call.command) (split station.reply).1

/-- What an exchange has published when it has come so far. Before the request is handed over, the
reply is still that to an earlier one. -/
def Reciting (call : Call) (before : List Signal) : Stage → Station τ → Prop
  | .queued, _ | .realigning _ _, _ => False
  | .sending _ _ false, station => station.published = before
  | .sending _ _ true, station | .flushing _ _, station | .receiving _ _, station =>
    Recites call before station

/-- What is said of an exchange after a step. -/
abbrev Recounted (call : Call) (before : List Signal)
    (outcome : Progress Stage Result × Station τ) : Prop :=
  Course.Meets (Reciting call before) (fun _ => Recites call before) outcome

section Steps

variable {call : Call} {before : List Signal} {station : Station τ}

/-- An event that brings nothing in and passes nothing on does not count. -/
theorem Recites.record (h : Recites call before station) (event : Event)
    (hsilent : event.published? = none) (hoffer : event.isOffer = false)
    (hbytes : event.receivedBytes = []) : Recites call before (station.record event) := by
  rw [Recites, published_record hsilent, reply_record hoffer, hbytes, List.append_nil]
  exact h

theorem Recites.align (h : Recites call before station) (alignment : Alignment) :
    Recites call before (station.align alignment) := by
  have hrecorded := h.record (.aligned alignment) rfl rfl rfl
  exact hrecorded

theorem Recites.noteWrite (h : Recites call before station) (request : Octets)
    (attempt : Attempt Nat) : Recites call before (station.noteWrite request attempt) := by
  cases attempt with
  | done taken => exact h.record (.sent (request.take taken)) rfl rfl rfl
  | failed => exact h.record .writeFailed rfl rfl rfl
  | waiting => exact h

theorem Recites.noteFlush (h : Recites call before station) (attempt : Attempt Unit) :
    Recites call before (station.noteFlush attempt) := by
  cases attempt with
  | done result => exact h.record .flushed rfl rfl rfl
  | failed => exact h.record .flushFailed rfl rfl rfl
  | waiting => exact h

theorem recounted_finish (h : Recites call before station) (result : Result) :
    Recounted call before (finish station result) := by
  have hrecorded := h.record .unlocked rfl rfl rfl
  exact hrecorded

theorem recounted_wait (h : Recites call before station) (timer : Timer) {stage : Timer → Stage}
    (hstage : ∀ timer, Reciting call before (stage timer) station) :
    Recounted call before (wait station timer stage) := by
  unfold wait
  cases timer.ask station.now with
  | some later => exact hstage later
  | none => exact recounted_finish (h.align .awaitingVerdict) _

theorem recounted_sent {request : Octets} {timer : Timer} {outcome : Attempt Nat × Station τ}
    (h : Recites call before outcome.2) :
    Recounted call before (sent request timer outcome) := by
  obtain ⟨attempt, station⟩ := outcome
  cases attempt with
  | waiting => exact recounted_wait h timer fun _ => h
  | failed => exact recounted_finish h _
  | done taken =>
    by_cases htaken : taken = request.length
    · simp only [sent, htaken, if_true]
      exact h
    · simp only [sent, htaken, if_false]
      exact recounted_finish h _

theorem recounted_flushed {timer : Timer} {outcome : Attempt Unit × Station τ}
    (h : Recites call before outcome.2) :
    Recounted call before (flushed call timer outcome) := by
  obtain ⟨attempt, station⟩ := outcome
  cases attempt with
  | waiting => exact recounted_wait h timer fun _ => h
  | failed => exact recounted_finish h _
  | done result => exact h

/-- What the bytes of a read announce is passed on. -/
theorem recounted_received {reply : Octets} {buffer : Buffer} {timer : Timer}
    {chunk : Chunk buffer.room}
    (htaken : Reception.Taken (Octets.ofText call.command) reply buffer)
    (hreply : station.reply = reply ++ chunk.val)
    (hpublished : station.published =
      before ++ answered (Octets.ofText call.command) (split reply).1) :
    Recounted call before (received timer station
      (Reception.absorb (Octets.ofText call.command) buffer chunk)) := by
  cases habsorb : Reception.absorb (Octets.ofText call.command) buffer chunk with
  | mk outcome signals =>
    have hnext : Recites call before (station.publishAll .response signals) := by
      have hsame : (station.publishAll .response signals).reply = station.reply :=
        congrArg Standing.reply (station.standing_publishAll .response signals)
      rw [Recites, hsame, hreply, Reception.answered_of_absorb htaken habsorb,
        published_publishAll, hpublished, List.append_assoc]
    cases outcome with
    | unfinished next => exact hnext
    | ended ending =>
      rw [received_ended]
      apply recounted_finish
      cases hcut : ending.cut with
      | true => exact hnext.align .midLine
      | false => exact hnext

variable [Transport τ]

theorem recounted_receiving {requests : List Octets} {buffer : Buffer} {timer : Timer}
    (hstands : Stands call requests (.receiving buffer timer) station.standing)
    (h : Recites call before station) :
    Recounted call before (step call (.receiving buffer timer) station) := by
  obtain ⟨request, -, -, htaken, -⟩ := hstands
  unfold step
  by_cases hfull : buffer.room = 0
  · simp only [hfull, if_true]
    exact recounted_finish (h.align .awaitingVerdict) _
  · simp only [hfull, if_false]
    have hstanding := station.standing_read .response buffer.room
    have hsame := station.published_read .response buffer.room
    cases hrun : station.read .response buffer.room with
    | mk attempt next =>
      rw [hrun] at hstanding hsame
      have hstill : next.reply = station.reply → Recites call before next := by
        intro hreply
        rw [Recites, hreply]
        exact hsame.trans h
      cases attempt with
      | waiting =>
        have hnext := hstill (congrArg Standing.reply hstanding)
        exact recounted_wait hnext timer fun _ => hnext
      | failed => exact recounted_finish (hstill (congrArg Standing.reply hstanding)) _
      | done chunk =>
        have hreply : next.reply = station.reply ++ chunk.val :=
          congrArg Standing.reply hstanding
        by_cases hend : chunk.val = []
        · rw [hend, List.append_nil] at hreply
          simp only [hend, if_true]
          exact recounted_finish (hstill hreply) _
        · simp only [hend, if_false]
          exact recounted_received htaken hreply (hsame.trans h)

/-- Handing the request over begins a new reply. -/
theorem recites_write (h : station.published = before) (request : Octets) :
    Recites call before (station.write request).2 := by
  have hoffered : ∀ transport : τ,
      Recites call before ({ station with transport }.record (.offered request)) := by
    intro transport
    have hnone : ({ station with transport }.record (.offered request)).reply = [] := by
      rw [reply, sinceOffer_record_offered]
      rfl
    rw [Recites, published_record rfl, hnone]
    exact h.trans (List.append_nil _).symm
  exact (hoffered _).noteWrite request _

theorem step_recites {requests : List Octets} {stage : Stage}
    (hstands : Stands call requests stage station.standing)
    (h : Reciting call before stage station) : Recounted call before (step call stage station) := by
  cases stage with
  | queued => exact h.elim
  | realigning request realignment => exact h.elim
  | sending request timer begun =>
    cases begun with
    | false => exact recounted_sent (recites_write h request)
    | true =>
      have hsame : Recites call before { station with
        transport := (Transport.awaitWrite station.now station.transport).2 } := h
      exact recounted_sent (hsame.noteWrite request _)
  | flushing timer begun =>
    cases begun with
    | false =>
      have hsame : Recites call before { station with
        transport := (Transport.flush station.now station.transport).2 } := h
      exact recounted_flushed (hsame.noteFlush _)
    | true =>
      have hsame : Recites call before { station with
        transport := (Transport.awaitFlush station.now station.transport).2 } := h
      exact recounted_flushed (hsame.noteFlush _)
  | receiving buffer timer => exact recounted_receiving hstands h

/-- However an exchange completes that is about to send, it has published what the reply
announces. -/
theorem completes_recites {request : Octets} {post : Result → Station τ → Prop}
    (h : Course.Completes (step call) (startSending call request station) station post)
    (hrequest : call.request? = some request) (hlocked : station.locked = true)
    (haligned : station.alignment = .aligned) :
    Course.Completes (step call) (startSending call request station) station
      fun result last => post result last ∧ Recites call station.published last := by
  let goes : Stage → Station τ → Prop := fun stage next =>
    Stands call station.requests stage next.standing ∧ Reciting call station.published stage next
  have hstep : ∀ stage next, goes stage next → Course.Meets goes
      (fun _ last => Recites call station.published last) (step call stage next) := by
    rintro stage next ⟨hstands, hreciting⟩
    have hupholds := step_upholds stage next hstands
    have hrecounted := step_recites hstands hreciting
    cases hrun : step call stage next with
    | mk progress after =>
      rw [hrun] at hupholds hrecounted
      cases progress with
      | moved later => exact ⟨hupholds, hrecounted⟩
      | waiting later => exact ⟨hupholds, hrecounted⟩
      | finished result => exact hrecounted
  have htime : ∀ stage next moment, goes stage next → goes stage (next.passTo moment) := by
    rintro stage next moment ⟨hstands, hreciting⟩
    refine ⟨hstands, ?_⟩
    cases stage with
    | sending request timer begun => cases begun <;> exact hreciting
    | queued | realigning request realignment | flushing timer begun | receiving buffer timer =>
      exact hreciting
  exact h.upholds hstep htime ⟨⟨hrequest, hlocked, haligned, rfl⟩, rfl⟩

end Steps

/-- An exchange that has read a reply to its only final result has published what the lines of the
reply announce, but for those that repeat the command. -/
theorem Yields.published_eq {call : Call} {before : List Octets} {signals : List Signal}
    {request reply final : Octets} {lines : List Octets} {verdict : Verdict}
    {wire : Octets → τ → Prop} {result : Result} {last : Station τ}
    (h : Yields call before request reply lines verdict wire result last)
    (hlines : (split reply).1 = lines ++ [final]) (hrecites : Recites call signals last) :
    last.published = signals ++ reports (Octets.ofText call.command) lines := by
  obtain ⟨left, hleft, -⟩ := h.exists_left
  rw [Recites] at hrecites
  rw [hrecites]
  congr 1
  rcases h.concludes with ⟨hundecided, ⟨other, later, hread, hkind⟩ | ⟨hread, -⟩⟩
  · -- nothing is behind the final result, since it is the last line of the reply
    rw [← hleft, split_append, hread, List.append_assoc, List.cons_append] at hlines
    obtain ⟨-, hrest⟩ := List.cons.inj (List.append_cancel_left hlines)
    rw [hread, (List.append_eq_nil_iff.mp hrest).1, answered_of_final hundecided hkind]
    exact List.append_nil _
  · rw [hread]
    exact answered_of_undecided hundecided

end Exchange

end CellModem
