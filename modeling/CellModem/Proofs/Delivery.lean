import Mathlib
import CellModem.Proofs.Exchange
import CellModem.Proofs.Modem
import CellModem.Proofs.Response

/-!
What an exchange returns is what its response says. If it succeeds, its payload is made of the data
lines in front of the final result. And if the transport answers in time with a response that reads
the same however it is cut, the exchange completes with it, under every clock.
-/

namespace CellModem

theorem Timer.ask_of_lt {timer : Timer} {now : Millis} (h : now < timer.deadline) :
    timer.ask now = some { timer with asked := true } := by
  have hpassed : timer.hasPassed now = false := by
    simp only [Timer.hasPassed, Bool.and_eq_false_iff, decide_eq_false_iff_not]
    exact Or.inr (Nat.not_le_of_lt h)
  simp [Timer.ask, hpassed]

namespace Exchange

variable {τ : Type}

theorem wait_of_lt {station : Station τ} {timer : Timer} (stage : Timer → Stage)
    (h : station.now < timer.deadline) :
    wait station timer stage = (.waiting (stage { timer with asked := true }), station) := by
  simp only [wait, Timer.ask_of_lt h]

variable {call : Call}

/-- The request was handed over, and the transport stands as said. -/
structure Hands (before : List Octets) (request : Octets) (flushed : Bool) (reply : Octets)
    (stands : τ → Prop) (station : Station τ) : Prop where
  standing_eq : station.standing = ⟨true, .aligned, before ++ [request], flushed, reply⟩
  transport : stands station.transport

/-- An exchange has ended as its reply says, and not beyond it. -/
def Delivers (call : Call) (before : List Octets) (request reply : Octets) (lines : List Octets)
    (verdict : Line.Verdict) (result : Result) (final : Station τ) : Prop :=
  result = conclusion verdict (Line.payload (Octets.ofText call.command) lines) ∧
    final.locked = false ∧ final.requests = before ++ [request] ∧ final.reply <+: reply

/-- So it has, and what it has not read of the reply is still there. -/
structure Yields (call : Call) (before : List Octets) (request reply : Octets)
    (lines : List Octets) (verdict : Line.Verdict) (wire : Octets → τ → Prop) (result : Result)
    (final : Station τ) : Prop where
  delivers : Delivers call before request reply lines verdict result final
  concludes : Line.Concludes (Octets.ofText call.command) final.reply lines verdict
  aligned_or_cut : final.alignment = .aligned ∨
    Line.Cut (Octets.ofText call.command) final.reply
  exists_left : ∃ left, final.reply ++ left = reply ∧ wire left final.transport

/-- An exchange has ended because what came in of the reply filled its buffer. -/
structure Overruns (call : Call) (reply : Octets) (wire : Octets → τ → Prop) (result : Result)
    (final : Station τ) : Prop where
  result_eq : result = .error .transport
  alignment_eq : final.alignment = .awaitingVerdict
  unended : Line.Unended (Octets.ofText call.command) final.reply
  overflows : Overflows call final.reply
  exists_left : ∃ left, final.reply ++ left = reply ∧ wire left final.transport

/-- The buffer was not filled before the last of these bytes came in. -/
def Confined (call : Call) (reply : Octets) : Prop :=
  ∀ early more, early ++ more = reply → more ≠ [] → ¬ Overflows call early

/-- An exchange has ended as its reply says, or for lack of room, and did not lack room before. -/
def Finishes (call : Call) (before : List Octets) (request reply : Octets) (lines : List Octets)
    (verdict : Line.Verdict) (wire : Octets → τ → Prop) (result : Result) (final : Station τ) :
    Prop :=
  Confined call final.reply ∧
    (Yields call before request reply lines verdict wire result final ∨
      Overruns call reply wire result final)

theorem confined_nil (call : Call) : Confined call [] :=
  fun _ _ h hmore => absurd (List.append_eq_nil_iff.mp h).2 hmore

/-- More bytes take up no more room than they are. -/
theorem Overflows.length_le {call : Call} {early bytes : Octets}
    (h : Overflows call (early ++ bytes)) :
    call.size ≤ (Line.body (Octets.ofText call.command) (Line.split early).1).length +
      (Line.split early).2.length + bytes.length := by
  have hbody := Line.length_body_add_le (Octets.ofText call.command)
    ((Line.split early).2 ++ bytes)
  unfold Overflows at h
  rw [Line.split_append] at h
  simp only [Line.body_append, List.length_append] at h hbody
  omega

/-- A read for which there is room fills the buffer with its last byte at the earliest. -/
theorem Confined.append {early bytes : Octets} (h : Confined call early)
    (hroom : (Line.body (Octets.ofText call.command) (Line.split early).1).length +
      (Line.split early).2.length + bytes.length ≤ call.size) :
    Confined call (early ++ bytes) := by
  intro front more hsplit hmore hfull
  rcases List.append_eq_append_iff.mp hsplit with ⟨between, hearly, hrest⟩ | ⟨taken, rfl, hbytes⟩
  · cases between with
    | nil =>
      obtain rfl : front = early := by rw [hearly, List.append_nil]
      have hlength := List.length_pos_iff.mpr hmore
      rw [hrest, List.nil_append] at hlength
      unfold Overflows at hfull
      omega
    | cons b between => exact h front (b :: between) hearly.symm (by simp) hfull
  · have hlength := List.length_pos_iff.mpr hmore
    have htaken := hfull.length_le
    rw [hbytes, List.length_append] at hroom
    omega

theorem Yields.imp {before : List Octets} {request reply : Octets} {lines : List Octets}
    {verdict : Line.Verdict} {wire wire' : Octets → τ → Prop} {result : Result} {final : Station τ}
    (h : Yields call before request reply lines verdict wire result final)
    (hwire : ∀ bytes next, wire bytes next → wire' bytes next) :
    Yields call before request reply lines verdict wire' result final := by
  obtain ⟨left, hleft, hstands⟩ := h.exists_left
  exact ⟨h.delivers, h.concludes, h.aligned_or_cut, left, hleft, hwire left _ hstands⟩

theorem Finishes.imp {before : List Octets} {request reply : Octets} {lines : List Octets}
    {verdict : Line.Verdict} {wire wire' : Octets → τ → Prop} {result : Result} {final : Station τ}
    (h : Finishes call before request reply lines verdict wire result final)
    (hwire : ∀ bytes next, wire bytes next → wire' bytes next) :
    Finishes call before request reply lines verdict wire' result final := by
  obtain ⟨hconfined, hyields | hoverruns⟩ := h
  · exact ⟨hconfined, Or.inl (hyields.imp hwire)⟩
  · obtain ⟨left, hleft, hstands⟩ := hoverruns.exists_left
    exact ⟨hconfined, Or.inr ⟨hoverruns.result_eq, hoverruns.alignment_eq, hoverruns.unended,
      hoverruns.overflows, left, hleft, hwire left _ hstands⟩⟩

/-- A reply that is shorter than the buffer does not fill it. -/
theorem Finishes.yields {before : List Octets} {request reply : Octets} {lines : List Octets}
    {verdict : Line.Verdict} {wire : Octets → τ → Prop} {result : Result} {final : Station τ}
    (h : Finishes call before request reply lines verdict wire result final)
    (hsize : reply.length < call.size) :
    Yields call before request reply lines verdict wire result final := by
  obtain ⟨-, hyields | hoverruns⟩ := h
  · exact hyields
  · obtain ⟨left, hleft, -⟩ := hoverruns.exists_left
    have hfull : call.size ≤ _ := hoverruns.overflows
    have hlength := congrArg List.length hleft
    have hbody := Line.length_body_add_le (Octets.ofText call.command) final.reply
    rw [List.length_append] at hlength
    omega

variable {before : List Octets} {request reply : Octets} {lines : List Octets} {final : Octets}
  {verdict : Line.Verdict} {due : Millis} {stands : Phase → τ → Prop}

/-- A regular response is not over before its final result. -/
theorem rest_ne_nil {early rest : Octets}
    (hregular : Line.Regular (Octets.ofText call.command) reply lines final verdict)
    (hsplit : early ++ rest = reply) (hunended : Line.Unended (Octets.ofText call.command) early) :
    rest ≠ [] := by
  rintro rfl
  rw [List.append_nil] at hsplit
  subst hsplit
  exact hregular.concludes.not_unended hunended

/-- What the bytes of a read come to, while the transport still conveys the reply. -/
theorem received_cases
    (hregular : Line.Regular (Octets.ofText call.command) reply lines final verdict)
    {early rest : Octets} {buffer : Buffer} {chunk : Chunk buffer.room} (timer : Timer)
    {station : Station τ} (hsplit : early ++ chunk.val ++ rest = reply)
    (htaken : Reception.Taken (Octets.ofText call.command) early buffer)
    (hstorage : buffer.storage.length = call.size)
    (hhands : Hands before request true (early ++ chunk.val) (stands (.conveying rest)) station) :
    (∃ next later, received timer station
        (Reception.absorb (Octets.ofText call.command) buffer chunk) =
          (.moved (.receiving next timer), later) ∧
      Reception.Taken (Octets.ofText call.command) (early ++ chunk.val) next ∧
      next.storage.length = call.size ∧
      Hands before request true (early ++ chunk.val) (stands (.conveying rest)) later) ∨
    ∃ result later, received timer station
        (Reception.absorb (Octets.ofText call.command) buffer chunk) =
          (.finished result, later) ∧ later.reply = early ++ chunk.val ∧
      Yields call before request reply lines verdict (fun bytes => stands (.conveying bytes))
        result later := by
  cases habsorb : Reception.absorb (Octets.ofText call.command) buffer chunk with
  | mk outcome signals =>
    cases outcome with
    | unfinished next =>
      obtain ⟨hnext, hlength⟩ := Reception.taken_of_absorb htaken habsorb
      refine Or.inl ⟨next, station.publishAll .response signals, rfl, hnext,
        hlength.trans hstorage, ?_, ?_⟩
      · rw [Station.standing_publishAll, hhands.standing_eq]
      · rw [Station.publishAll_eq]
        exact hhands.transport
    | ended ending =>
      obtain ⟨lines', hconcludes, hpayload, hcut⟩ := Reception.concludes_of_absorb htaken habsorb
      obtain ⟨rfl, hverdict⟩ := hregular.eq_of_concludes hsplit hconcludes
      refine Or.inr ⟨_, _, received_ended timer station ending signals, ?_⟩
      have hstanding : (close station ending.cut signals).unlock.standing =
          ⟨false, if ending.cut then .midLine else .aligned, before ++ [request], true,
            early ++ chunk.val⟩ := by
        rw [Station.standing_unlock, standing_close, hhands.standing_eq]
      have hreply : (close station ending.cut signals).unlock.reply = early ++ chunk.val :=
        congrArg Standing.reply hstanding
      have hleft : (close station ending.cut signals).unlock.reply ++ rest = reply := by
        rw [hreply, hsplit]
      refine ⟨hreply, ?_⟩
      constructor
      · refine ⟨by rw [hverdict, hpayload], congrArg Standing.locked hstanding,
          congrArg Standing.requests hstanding, rest, hleft⟩
      · rw [hreply, ← hverdict]
        exact hconcludes
      · rw [hreply, ← hcut]
        have halignment := congrArg Standing.alignment hstanding
        cases hcase : ending.cut with
        | true => exact Or.inr rfl
        | false =>
          rw [hcase] at halignment
          exact Or.inl halignment
      · refine ⟨rest, hleft, ?_⟩
        change stands _ (close station ending.cut signals).transport
        rw [transport_close]
        exact hhands.transport

variable [Transport τ]

/-- The reply is taken in to its end, however it is cut into reads, unless it fills the buffer. -/
theorem finishes_receiving
    (hregular : Line.Regular (Octets.ofText call.command) reply lines final verdict)
    (hread : Conveys due fun bytes => stands (.conveying bytes))
    (rest early : Octets) (hsplit : early ++ rest = reply) (buffer : Buffer) (timer : Timer)
    (station : Station τ) (hdue : due ≤ timer.deadline)
    (htaken : Reception.Taken (Octets.ofText call.command) early buffer)
    (hstorage : buffer.storage.length = call.size) (hconfined : Confined call early)
    (hhands : Hands before request true early (stands (.conveying rest)) station) :
    Course.Completes (step call) (.receiving buffer timer) station
      (Finishes call before request reply lines verdict fun bytes => stands (.conveying bytes)) := by
  have hroom := htaken.room_add
  rcases Nat.eq_zero_or_pos buffer.room with hfull | hroomy
  · have hstep : step call (.receiving buffer timer) station = abandon station .transport := by
      simp only [step, hfull, if_true]
    have hstanding : (station.align .awaitingVerdict).unlock.standing =
        ⟨false, .awaitingVerdict, before ++ [request], true, early⟩ := by
      rw [Station.standing_unlock, Station.standing_align, hhands.standing_eq]
    have hreply : (station.align .awaitingVerdict).unlock.reply = early :=
      congrArg Standing.reply hstanding
    apply Course.completes_of_finished hstep
    unfold Finishes
    rw [hreply]
    refine ⟨hconfined, Or.inr ⟨rfl, rfl, ?_, ?_, ?_⟩⟩
    · rw [hreply]
      exact htaken.unended
    · rw [hreply, Overflows]
      omega
    · rw [hreply]
      exact ⟨rest, hsplit, hhands.transport⟩
  have hrest := rest_ne_nil hregular hsplit htaken.unended
  let waits : Stage → Station τ → Prop := fun stage station =>
    ∃ timer, stage = .receiving buffer timer ∧ due ≤ timer.deadline ∧
      Hands before request true early (stands (.conveying rest)) station
  have hstart : waits (.receiving buffer timer) station := ⟨timer, rfl, hdue, hhands⟩
  refine Course.completes_of_wait due ?_ ?_ hstart
  · rintro stage station moment ⟨timer, hstage, hdue, hhands⟩
    exact ⟨timer, hstage, hdue, hhands.standing_eq, hhands.transport⟩
  rintro stage station ⟨timer, rfl, hdue, hhands⟩
  have hsettles := hread rest station.transport station.now buffer.room hhands.transport hroomy
  have hstanding := station.standing_read .response buffer.room
  rw [hhands.standing_eq] at hstanding
  cases hrun : station.read .response buffer.room with
  | mk attempt next =>
    obtain ⟨htransport, hnow⟩ := Station.transport_of_read hrun
    rw [hrun] at hstanding
    rw [htransport] at hsettles
    cases attempt with
    | failed => exact hsettles.elim
    | waiting =>
      obtain ⟨hempty | hearly, hheld⟩ := hsettles
      · exact absurd hempty hrest
      · have hdeadline : next.now < timer.deadline := by
          rw [hnow]
          exact Nat.lt_of_lt_of_le hearly hdue
        refine Or.inl ⟨hearly, .receiving buffer { timer with asked := true }, next, ?_, ?_⟩
        · simp only [step, Nat.ne_of_gt hroomy, if_false, hrun, wait_of_lt _ hdeadline]
        · exact ⟨{ timer with asked := true }, rfl, hdue, hstanding, hheld⟩
    | done chunk =>
      obtain ⟨hchunk, later, hlater, hheld⟩ := hsettles
      have hstep : step call (.receiving buffer timer) station = received timer next
          (Reception.absorb (Octets.ofText call.command) buffer chunk) := by
        simp only [step, Nat.ne_of_gt hroomy, if_false, hrun, hchunk]
      have hsplit' : early ++ chunk.val ++ later = reply := by
        rw [List.append_assoc, hlater, hsplit]
      have hshorter : later.length < rest.length := by
        have hpositive := List.length_pos_iff.mpr hchunk
        rw [← hlater, List.length_append]
        omega
      have hconfined' : Confined call (early ++ chunk.val) := by
        apply hconfined.append
        have hchunk := chunk.property
        omega
      right
      rcases received_cases hregular timer hsplit' htaken hstorage ⟨hstanding, hheld⟩ with
        ⟨filled, after, hreceived, htaken', hstorage', hhands'⟩ | ⟨result, after, hreceived, hdone⟩
      · apply Course.completes_of_moved (hstep.trans hreceived)
        exact finishes_receiving hregular hread later _ hsplit' filled timer after hdue
          htaken' hstorage' hconfined' hhands'
      · apply Course.completes_of_finished (hstep.trans hreceived)
        exact ⟨hdone.1 ▸ hconfined', Or.inl hdone.2⟩
termination_by rest.length

/-- Whether it has just begun or not, a flush is done in time, and the reply follows. -/
theorem finishes_flushing
    (hregular : Line.Regular (Octets.ofText call.command) reply lines final verdict)
    (hanswers : Answers request reply due stands)
    (begun : Bool) (timer : Timer) (station : Station τ) (hdue : due ≤ timer.deadline)
    (hhands : Hands before request false []
      (stands (if begun then .flushing else .written)) station) :
    Course.Completes (step call) (.flushing timer begun) station
      (Finishes call before request reply lines verdict fun bytes => stands (.conveying bytes)) := by
  let waits : Stage → Station τ → Prop := fun stage station =>
    ∃ timer begun, stage = .flushing timer begun ∧ due ≤ timer.deadline ∧
      Hands before request false [] (stands (if begun then .flushing else .written)) station
  have hstart : waits (.flushing timer begun) station := ⟨timer, begun, rfl, hdue, hhands⟩
  refine Course.completes_of_wait due ?_ ?_ hstart
  · rintro stage station moment ⟨timer, begun, hstage, hdue, hhands⟩
    exact ⟨timer, begun, hstage, hdue, hhands.standing_eq, hhands.transport⟩
  rintro stage station ⟨timer, begun, rfl, hdue, hhands⟩
  obtain ⟨attempt, next, hstep, hnow, hstanding, hsettles⟩ : ∃ attempt next,
      step call (.flushing timer begun) station = flushed call timer (attempt, next) ∧
      next.now = station.now ∧
      next.standing = ⟨true, .aligned, before ++ [request], attempt.isDone, []⟩ ∧
      Settles (station.now < due) (fun _ later => stands (.conveying reply) later)
        (stands .flushing) (attempt, next.transport) := by
    cases begun with
    | false =>
      cases hrun : station.flush with
      | mk attempt next =>
        obtain ⟨htransport, hnow⟩ := Station.transport_of_flush hrun
        have hstanding := station.standing_flush
        have hsettles := hanswers.flush station.transport station.now hhands.transport
        rw [hhands.standing_eq, hrun, Bool.or_false] at hstanding
        rw [htransport] at hsettles
        exact ⟨attempt, next, by rw [step, hrun], hnow, hstanding, hsettles⟩
    | true =>
      cases hrun : station.awaitFlush with
      | mk attempt next =>
        obtain ⟨htransport, hnow⟩ := Station.transport_of_awaitFlush hrun
        have hstanding := station.standing_awaitFlush
        have hsettles := hanswers.awaitFlush station.transport station.now hhands.transport
        rw [hhands.standing_eq, hrun, Bool.or_false] at hstanding
        rw [htransport] at hsettles
        exact ⟨attempt, next, by rw [step, hrun], hnow, hstanding, hsettles⟩
  cases attempt with
  | failed => exact hsettles.elim
  | waiting =>
    have hdeadline : next.now < timer.deadline := by
      rw [hnow]
      exact Nat.lt_of_lt_of_le hsettles.1 hdue
    refine Or.inl ⟨hsettles.1, .flushing { timer with asked := true } true, next, ?_, ?_⟩
    · rw [hstep, flushed, wait_of_lt _ hdeadline]
    · exact ⟨{ timer with asked := true }, true, rfl, hdue, hstanding, hsettles.2⟩
  | done result =>
    refine Or.inr (Course.completes_of_moved (hstep.trans rfl) ?_)
    exact finishes_receiving hregular hanswers.read reply [] rfl _ timer next hdue
      (Reception.taken_empty _ _) List.length_replicate (confined_nil call) ⟨hstanding, hsettles⟩

/-- What becomes of an exchange once its request is taken as a whole. -/
theorem finishes_sent
    (hregular : Line.Regular (Octets.ofText call.command) reply lines final verdict)
    (hanswers : Answers request reply due stands)
    {taken : Nat} {stage : Stage} (timer : Timer) (station next : Station τ)
    (hdue : due ≤ timer.deadline)
    (hstep : step call stage station = sent request timer (.done taken, next))
    (htaken : taken = request.length)
    (hhands : Hands before request false [] (stands .written) next) :
    Course.Completes (step call) stage station
      (Finishes call before request reply lines verdict fun bytes => stands (.conveying bytes)) := by
  have hmoved : step call stage station = (.moved (.flushing timer false), next) := by
    rw [hstep]
    simp only [sent, htaken, if_true]
  exact Course.completes_of_moved hmoved
    (finishes_flushing hregular hanswers false timer next hdue hhands)

theorem finishes_sending_begun
    (hregular : Line.Regular (Octets.ofText call.command) reply lines final verdict)
    (hanswers : Answers request reply due stands)
    (timer : Timer) (station : Station τ) (hdue : due ≤ timer.deadline)
    (hhands : Hands before request false [] (stands .writing) station) :
    Course.Completes (step call) (.sending request timer true) station
      (Finishes call before request reply lines verdict fun bytes => stands (.conveying bytes)) := by
  let waits : Stage → Station τ → Prop := fun stage station =>
    ∃ timer, stage = .sending request timer true ∧ due ≤ timer.deadline ∧
      Hands before request false [] (stands .writing) station
  have hstart : waits (.sending request timer true) station := ⟨timer, rfl, hdue, hhands⟩
  refine Course.completes_of_wait due ?_ ?_ hstart
  · rintro stage station moment ⟨timer, hstage, hdue, hhands⟩
    exact ⟨timer, hstage, hdue, hhands.standing_eq, hhands.transport⟩
  rintro stage station ⟨timer, rfl, hdue, hhands⟩
  have hsettles := hanswers.awaitWrite station.transport station.now hhands.transport
  have hstanding := station.standing_awaitWrite request
  rw [hhands.standing_eq] at hstanding
  cases hrun : station.awaitWrite request with
  | mk attempt next =>
    obtain ⟨htransport, hnow⟩ := Station.transport_of_awaitWrite hrun
    rw [hrun] at hstanding
    rw [htransport] at hsettles
    cases attempt with
    | failed => exact hsettles.elim
    | waiting =>
      have hdeadline : next.now < timer.deadline := by
        rw [hnow]
        exact Nat.lt_of_lt_of_le hsettles.1 hdue
      refine Or.inl ⟨hsettles.1, .sending request { timer with asked := true } true, next, ?_, ?_⟩
      · rw [step, hrun, sent, wait_of_lt _ hdeadline]
      · exact ⟨{ timer with asked := true }, rfl, hdue, hstanding, hsettles.2⟩
    | done taken =>
      exact Or.inr (finishes_sent hregular hanswers timer station next hdue
        (by rw [step, hrun]) hsettles.1 ⟨hstanding, hsettles.2⟩)

/-- An exchange that has the transport to itself ends as the reply says, if its buffer has room. -/
theorem finishes_sending {within : Millis}
    (hregular : Line.Regular (Octets.ofText call.command) reply lines final verdict)
    (hwithin : within ≤ call.timeout) (station : Station τ)
    (hlocked : station.locked = true) (haligned : station.alignment = .aligned)
    (hanswers : Answers request reply (station.now + within) stands)
    (hsettles : Settles (0 < within) (fun taken next => taken = request.length ∧ stands .written next)
      (stands .writing) (Transport.write station.now request station.transport)) :
    Course.Completes (step call) (startSending call request station) station
      (Finishes call station.requests request reply lines verdict
        fun bytes => stands (.conveying bytes)) := by
  have hdue : station.now + within ≤ (Timer.start station.now call.timeout).deadline :=
    Nat.add_le_add_left hwithin _
  have hstanding := station.standing_write request
  rw [hlocked, haligned] at hstanding
  unfold startSending
  cases hrun : station.write request with
  | mk attempt next =>
    obtain ⟨htransport, hnow⟩ := Station.transport_of_write hrun
    rw [hrun] at hstanding
    rw [htransport] at hsettles
    cases attempt with
    | failed => exact hsettles.elim
    | waiting =>
      have hdeadline : next.now < (Timer.start station.now call.timeout).deadline := by
        rw [hnow]
        exact Nat.lt_of_lt_of_le (Nat.lt_add_of_pos_right hsettles.1) hdue
      apply Course.completes_of_waiting (by rw [step, hrun, sent, wait_of_lt _ hdeadline])
      intro moment
      exact finishes_sending_begun hregular hanswers _ _ hdue ⟨hstanding, hsettles.2⟩
    | done taken =>
      exact finishes_sent hregular hanswers _ station next hdue
        (by rw [step, hrun]) hsettles.1 ⟨hstanding, hsettles.2⟩

/-- And so it does with a reply that is shorter than the buffer. -/
theorem yields_sending {within : Millis}
    (hregular : Line.Regular (Octets.ofText call.command) reply lines final verdict)
    (hsize : reply.length < call.size) (hwithin : within ≤ call.timeout) (station : Station τ)
    (hlocked : station.locked = true) (haligned : station.alignment = .aligned)
    (hanswers : Answers request reply (station.now + within) stands)
    (hsettles : Settles (0 < within) (fun taken next => taken = request.length ∧ stands .written next)
      (stands .writing) (Transport.write station.now request station.transport)) :
    Course.Completes (step call) (startSending call request station) station
      (Yields call station.requests request reply lines verdict
        fun bytes => stands (.conveying bytes)) :=
  (finishes_sending hregular hwithin station hlocked haligned hanswers hsettles).imp
    fun _ _ hfinishes => hfinishes.yields hsize

theorem completes_sending {within : Millis}
    (hregular : Line.Regular (Octets.ofText call.command) reply lines final verdict)
    (hsize : reply.length < call.size) (hwithin : within ≤ call.timeout) (station : Station τ)
    (hlocked : station.locked = true) (haligned : station.alignment = .aligned)
    (hresponds : Responds request reply within station.now station.transport) :
    Course.Completes (step call) (startSending call request station) station
      (Delivers call station.requests request reply lines verdict) := by
  obtain ⟨stands, hanswers, hsettles⟩ := hresponds
  exact (yields_sending hregular hsize hwithin station hlocked haligned hanswers hsettles).imp
    fun _ _ hyields => hyields.delivers

theorem step_of_aligned {station : Station τ} (hrequest : call.request? = some request)
    (hlocked : station.locked = false) (haligned : station.alignment = .aligned) :
    step call .queued station =
      (.moved (startSending call request station.lock), station.lock) := by
  have hkept : station.lock.alignment = .aligned := haligned
  simp [step, hrequest, hlocked, hkept]

/-- And so does one that finds the transport free and the stream aligned. -/
theorem completes_queued {within : Millis} (hrequest : call.request? = some request)
    (hregular : Line.Regular (Octets.ofText call.command) reply lines final verdict)
    (hsize : reply.length < call.size) (hwithin : within ≤ call.timeout) (station : Station τ)
    (hlocked : station.locked = false) (haligned : station.alignment = .aligned)
    (hresponds : Responds request reply within station.now station.transport) :
    Course.Completes (step call) .queued station
      (Delivers call station.requests request reply lines verdict) := by
  have hrequests : station.lock.requests = station.requests := Station.requests_record rfl
  rw [← hrequests]
  exact Course.completes_of_moved (step_of_aligned hrequest hlocked haligned)
    (completes_sending hregular hsize hwithin station.lock rfl haligned hresponds)

theorem payload_of_ends {before : List Octets} {payload : Octets} {standing : Standing}
    (h : Ends call before (.ok payload) standing) :
    ∃ request lines, call.request? = some request ∧ standing.requests = before ++ [request] ∧
      Line.Concludes (Octets.ofText call.command) standing.reply lines .accepted ∧
      payload = Line.payload (Octets.ofText call.command) lines := by
  generalize hresult : (.ok payload : Result) = result at h
  cases h with
  | unsendable => cases hresult
  | timedOut => cases hresult
  | overflowed => cases hresult
  | failed => cases hresult
  | concluded hrequest hconcludes halignment =>
    rename_i request reply lines verdict alignment
    cases verdict with
    | accepted =>
      cases hresult
      exact ⟨request, lines, hrequest, rfl, hconcludes, rfl⟩
    | refused => cases hresult

/-- The payload of an exchange that succeeds is made of the data lines between its request and the
`OK`. Conversely, an exchange on an aligned stream whose reply is regular, comes in time and is
shorter than the buffer ends as the reply says, however the reply is cut into reads. -/
theorem payload_exact (call : Call) (station : Station τ) :
    (∀ moments payload last,
      Course.follow (step call) moments .queued station = (.finished (.ok payload), last) →
      ∃ request lines, call.request? = some request ∧
        last.requests = station.requests ++ [request] ∧
        Line.Concludes (Octets.ofText call.command) last.reply lines .accepted ∧
        payload = Line.payload (Octets.ofText call.command) lines) ∧
    ∀ request reply lines final verdict within,
      call.request? = some request → station.locked = false → station.alignment = .aligned →
      Line.Regular (Octets.ofText call.command) reply lines final verdict →
      reply.length < call.size → within ≤ call.timeout →
      Responds request reply within station.now station.transport →
      Course.Completes (step call) .queued station fun result _ =>
        result = conclusion verdict (Line.payload (Octets.ofText call.command) lines) := by
  constructor
  · intro moments payload last hrun
    have hends := follow_upholds call moments station
    rw [hrun] at hends
    exact payload_of_ends hends
  · intro request reply lines final verdict within hrequest hlocked haligned hregular hsize hwithin
      hresponds
    refine (completes_queued hrequest hregular hsize hwithin station hlocked haligned hresponds).imp ?_
    intro result last hdelivers
    exact hdelivers.1

/-- Rules of a modem that sends its responses in pieces: one in three, none of which is a line, and
one of which the second half is late. -/
def piecemealRules : List Bench.Rule :=
  [{ request := Octets.ofText "AT+CFUN?"
     replies :=
       [[{ content := .data (Octets.ofText "+CFUN"), delay := 5 },
         { content := .data (Octets.ofText ": 1\r\nO"), delay := 10 },
         { content := .data (Octets.ofText "K\r\n"), delay := 20 }]] },
   { request := Octets.ofText "AT+CGMR"
     replies :=
       [[{ content := .data (Octets.ofText "mfw_") },
         { content := .data (Octets.ofText "1.0\r\nOK\r\n"), delay := 500 }]] }]

def piecemealModem : Bench.Modem where
  rules := piecemealRules

def functionalityCall : Call where
  command := "AT+CFUN?"
  terminator := "\r\n"
  timeout := 100
  size := 32

/-- The pieces of the response in time. -/
theorem piecemeal_carries (now : Millis) :
    Bench.Carries (now + 20)
      [⟨.data (Octets.ofText "+CFUN"), now + 5⟩, ⟨.data (Octets.ofText ": 1\r\nO"), now + 10⟩,
        ⟨.data (Octets.ofText "K\r\n"), now + 20⟩] (Octets.ofText "+CFUN: 1\r\nOK\r\n") := by
  have hdelay : ∀ delay ≤ 20, now + delay ≤ now + 20 := fun _ h => Nat.add_le_add_left h now
  exact .cons (by decide) (hdelay 5 (by decide)) (.cons (by decide) (hdelay 10 (by decide))
    (.cons (by decide) (hdelay 20 (by decide)) .nil))

theorem piecemeal_replies (due : Millis) {now : Millis} {modem : Bench.Modem}
    (hidle : Bench.Modem.Holds due piecemealRules [] modem) :
    Replies (Octets.ofText "AT+CFUN?\r\n") (Octets.ofText "+CFUN: 1\r\nOK\r\n") 20 now
      (Bench.Modem.Holds (now + 20) piecemealRules) modem := by
  apply Bench.Modem.replies hidle (by rfl)
  exact piecemeal_carries now

theorem piecemeal_responds (due : Millis) {now : Millis} {modem : Bench.Modem}
    (hidle : Bench.Modem.Holds due piecemealRules [] modem) :
    Responds (Octets.ofText "AT+CFUN?\r\n") (Octets.ofText "+CFUN: 1\r\nOK\r\n") 20 now modem :=
  (piecemeal_replies due hidle).responds

theorem functionality_regular :
    Line.Regular (Octets.ofText "AT+CFUN?") (Octets.ofText "+CFUN: 1\r\nOK\r\n")
      [Octets.ofText "+CFUN: 1"] (Octets.ofText "OK") .accepted where
  complete := by decide
  lines_eq := ⟨[], by decide⟩
  undecided := by
    intro line hline v
    rw [List.mem_singleton.mp hline]
    cases v <;> decide
  plain := by
    intro line hline
    rw [List.mem_singleton.mp hline]
    unfold Line.Misleading
    decide
  final_kind := by decide

set_option maxRecDepth 8000 in
theorem payload_exact_piecemeal :
    (∃ request lines, functionalityCall.request? = some request ∧
      Octets.ofText "+CFUN: 1" = Line.payload (Octets.ofText functionalityCall.command) lines) ∧
    Course.Completes (step functionalityCall) .queued { transport := piecemealModem }
      fun result _ => result = .ok (Octets.ofText "+CFUN: 1") := by
  have hexact := payload_exact functionalityCall { transport := piecemealModem }
  have hrun : (Course.follow (step functionalityCall) [0, 0, 0, 0, 20, 20, 20] .queued
      { transport := piecemealModem }).1 = .finished (.ok (Octets.ofText "+CFUN: 1")) := by cbv
  constructor
  · obtain ⟨request, lines, hrequest, -, -, hpayload⟩ := hexact.1 _ _ _ (Prod.ext hrun rfl)
    exact ⟨request, lines, hrequest, hpayload⟩
  · exact hexact.2 _ _ _ _ .accepted 20 (by decide) rfl rfl functionality_regular (by decide)
      (by decide) (piecemeal_responds 0 ⟨.nil, rfl, by decide, rfl, rfl⟩)

end Exchange

end CellModem
