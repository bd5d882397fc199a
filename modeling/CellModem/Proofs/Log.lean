import CellModem.Proofs.Exchange
import CellModem.Proofs.Operations
import CellModem.System

/-!
What the log of a transport says of a job: which of its accesses begin a write. The journal of the
station tells of the same requests, so that what is known of an exchange from there carries over.
-/

namespace CellModem

namespace Station

variable {τ : Type}

theorem requests_noteRead {room : Nat} (station : Station τ) (purpose : Purpose)
    (attempt : Attempt (Chunk room)) :
    (station.noteRead purpose attempt).requests = station.requests := by
  cases attempt with
  | done chunk => exact requests_record rfl
  | failed => exact requests_record rfl
  | waiting => rfl

theorem passive_requests [Transport τ] :
    Passive fun first last : Station τ => last.requests = first.requests where
  refl _ := rfl
  trans hfirst hlast := hlast.trans hfirst
  lock _ := requests_record rfl
  unlock _ := requests_record rfl
  align _ _ := requests_record rfl
  publishAll := requests_publishAll
  probe _ := requests_record rfl
  read _ purpose _ := requests_noteRead _ purpose _

/-- What happened in between stands in the log, with the requests that the journal tells of. -/
def Logs (first last : Station (Logged τ)) : Prop :=
  ∃ news, last.transport.log = first.transport.log ++ news ∧
    last.requests = first.requests ++ news.filterMap Access.written?

variable {first middle last : Station (Logged τ)}

theorem logs_of_same (htransport : last.transport = first.transport)
    (hrequests : last.requests = first.requests) : Logs first last := by
  refine ⟨[], ?_, ?_⟩
  · rw [htransport, List.append_nil]
  · rw [hrequests, List.filterMap_nil, List.append_nil]

theorem logs_of_access (access : Access)
    (hlog : last.transport.log = first.transport.log ++ [access])
    (hrequests : last.requests = first.requests ++ access.written?.toList) : Logs first last := by
  refine ⟨[access], hlog, ?_⟩
  rw [hrequests]
  cases hwritten : access.written? <;> simp [hwritten]

theorem Logs.trans (hfirst : Logs first middle) (hlast : Logs middle last) : Logs first last := by
  obtain ⟨earlier, hlog, hrequests⟩ := hfirst
  obtain ⟨later, hlog', hrequests'⟩ := hlast
  refine ⟨earlier ++ later, ?_, ?_⟩
  · rw [hlog', hlog, List.append_assoc]
  · rw [hrequests', hrequests, List.filterMap_append, List.append_assoc]

theorem Logs.log_eq (h : Logs first last) :
    last.transport.log = first.transport.log ++ System.accesses first last := by
  obtain ⟨news, hlog, -⟩ := h
  rw [System.accesses, hlog, List.drop_left]

/-- Whatever was added to the log, the requests among it are those of the journal. -/
theorem Logs.requests_eq {news : List Access} (h : Logs first last)
    (hlog : last.transport.log = first.transport.log ++ news) :
    last.requests = first.requests ++ news.filterMap Access.written? := by
  obtain ⟨added, hadded, hrequests⟩ := h
  have hsame : added = news := List.append_cancel_left (hadded.symm.trans hlog)
  rw [hrequests, hsame]

theorem active_logs [Transport τ] : Active (Logs (τ := τ)) where
  refl _ := logs_of_same rfl rfl
  trans := Logs.trans
  lock _ := logs_of_same rfl (requests_record rfl)
  unlock _ := logs_of_same rfl (requests_record rfl)
  align _ _ := logs_of_same rfl (requests_record rfl)
  publishAll station purpose signals := by
    refine logs_of_same ?_ (station.requests_publishAll purpose signals)
    rw [publishAll_eq]
  probe _ := by
    apply logs_of_access .ready rfl
    exact (requests_record rfl).trans (List.append_nil _).symm
  read _ purpose room := by
    refine logs_of_access (.read room) ?_ ?_
    · exact congrArg Logged.log (noteRead_transport _ purpose _).1
    · exact (requests_noteRead _ purpose _).trans (List.append_nil _).symm
  write station request := by
    refine logs_of_access (.write request) ?_ ?_
    · exact congrArg Logged.log (noteWrite_transport _ request _).1
    · exact congrArg Standing.requests (station.standing_write request)
  awaitWrite station request := by
    have hstanding := congrArg Standing.requests (station.standing_awaitWrite request)
    refine logs_of_access .awaitWrite ?_ (hstanding.trans (List.append_nil _).symm)
    exact congrArg Logged.log (noteWrite_transport _ request _).1
  flush station := by
    have hstanding := congrArg Standing.requests station.standing_flush
    refine logs_of_access .flush ?_ (hstanding.trans (List.append_nil _).symm)
    exact congrArg Logged.log (noteFlush_transport _ _).1
  awaitFlush station := by
    have hstanding := congrArg Standing.requests station.standing_awaitFlush
    refine logs_of_access .awaitFlush ?_ (hstanding.trans (List.append_nil _).symm)
    exact congrArg Logged.log (noteFlush_transport _ _).1

end Station

namespace Listener

variable {τ : Type}

/-- To act on the result of a sweep is to pause, or to hand on what it brought in. -/
theorem swept_cases (settings : Settings) (result : Sweep.Result) (station : Station τ) :
    swept settings result station = pause settings station ∨
      ∃ buffer, result = .ok (some buffer) ∧
        swept settings result station =
          (.choosing, (dispatch buffer station).setListener .idle) := by
  match result with
  | .error cause => exact Or.inl rfl
  | .ok none => exact Or.inl rfl
  | .ok (some buffer) =>
    by_cases hempty : buffer.filled = 0
    · exact Or.inl (if_pos hempty)
    · exact Or.inr ⟨buffer, rfl, if_neg hempty⟩

/-- Handing on what a sweep brought in leaves the transport alone. -/
theorem swept_keeps (settings : Settings) (result : Sweep.Result) (station : Station τ) :
    (swept settings result station).2.transport = station.transport ∧
      (swept settings result station).2.now = station.now ∧
      (swept settings result station).2.locked = station.locked ∧
      (swept settings result station).2.requests = station.requests := by
  rcases swept_cases settings result station with hpause | ⟨buffer, -, hdispatch⟩
  · rw [hpause]
    exact ⟨rfl, rfl, rfl, Station.requests_record rfl⟩
  · have hpublished : (dispatch buffer station).requests = station.requests :=
      (Station.requests_publishAll _ .sweep _).trans (Station.requests_record rfl)
    have hidle : ((dispatch buffer station).setListener .idle).requests = station.requests :=
      (Station.requests_record rfl).trans hpublished
    rw [hdispatch]
    refine ⟨?_, ?_, ?_, hidle⟩ <;> simp only [dispatch, Station.publishAll_eq] <;> rfl

end Listener

namespace Job

variable {τ : Type}

/-- How the request of the job stands while it is under way. -/
def Stands (before : List Octets) : Job → Standing → Prop
  | .exchange call stage, standing => Exchange.Stands call before stage standing
  | .poll _ _, standing => standing.requests = before

/-- And how at its end. -/
def Ends (before : List Octets) : Operation → Outcome → Standing → Prop
  | .exchange call, .exchanged result, standing => Exchange.Ends call before result standing
  | .poll _, .polled _, standing => standing.requests = before
  | .exchange _, .polled _, _ | .poll _, .exchanged _, _ => False

theorem stands_start (operation : Operation) (station : Station τ) :
    operation.start.Stands station.requests station.standing := by
  cases operation <;> exact rfl

theorem requests_of_stands {call : Call} {request : Octets} {before : List Octets} {job : Job}
    {standing : Standing} (hrequest : call.request? = some request)
    (hoperation : job.operation = .exchange call) (h : job.Stands before standing) :
    standing.requests = before ∨ standing.requests = before ++ [request] := by
  cases job with
  | exchange other stage =>
    cases hoperation
    exact Exchange.Stands.requests hrequest h
  | poll settings stage => cases hoperation

theorem requests_of_poll {settings : Settings} {before : List Octets} {job : Job}
    {standing : Standing} (hoperation : job.operation = .poll settings)
    (h : job.Stands before standing) : standing.requests = before := by
  cases job with
  | exchange call stage => cases hoperation
  | poll other stage => exact h

variable [Transport τ]

section Meets

variable {invariant : Job → Station τ → Prop} {post : Outcome → Station τ → Prop}
  {station : Station τ}

theorem meets_of_exchange {call : Call} {stage : Exchange.Stage}
    (h : Course.Meets (fun stage => invariant (.exchange call stage))
      (fun result => post (.exchanged result)) (Exchange.step call stage station)) :
    Course.Meets invariant post (step (.exchange call stage) station) := by
  simp only [step]
  cases hrun : Exchange.step call stage station with
  | mk progress next =>
    rw [hrun] at h
    cases progress <;> exact h

theorem meets_of_poll {settings : Settings} {stage : Sweep.Stage}
    (h : Course.Meets (fun stage => invariant (.poll settings stage))
      (fun result next => post (.polled result) (Listener.swept settings result next).2)
      (Sweep.step settings.responseTimeout stage station)) :
    Course.Meets invariant post (step (.poll settings stage) station) := by
  simp only [step]
  cases hrun : Sweep.step settings.responseTimeout stage station with
  | mk progress next =>
    rw [hrun] at h
    cases progress <;> exact h

end Meets

theorem step_logs (job : Job) (station : Station (Logged τ)) :
    station.Logs (job.step station).2 := by
  have hmeets : Course.Meets (fun _ => station.Logs) (fun _ => station.Logs)
      (job.step station) := by
    cases job with
    | exchange call stage =>
      apply meets_of_exchange
      apply Course.meets_of_station station.Logs
      exact Exchange.step_relates Station.active_logs call stage station
    | poll settings stage =>
      apply meets_of_poll
      have hstep := Course.meets_of_station station.Logs
        (Sweep.step_relates Station.active_logs.toPassive settings.responseTimeout stage station)
      apply hstep.imp
      · exact fun _ _ hlogs => hlogs
      · intro result next hlogs
        obtain ⟨htransport, -, -, hrequests⟩ := Listener.swept_keeps settings result next
        exact hlogs.trans (Station.logs_of_same htransport hrequests)
  exact hmeets.station (fun _ _ hlogs => hlogs) fun _ _ hlogs => hlogs

/-- What is said of the request of an operation holds at every step. -/
theorem step_stands {operation : Operation} {before : List Octets} (job : Job)
    (station : Station τ) (h : job.operation = operation ∧ job.Stands before station.standing) :
    Course.Meets
      (fun job station => job.operation = operation ∧ job.Stands before station.standing)
      (fun outcome station => Ends before operation outcome station.standing)
      (job.step station) := by
  obtain ⟨rfl, hstands⟩ := h
  cases job with
  | exchange call stage =>
    apply meets_of_exchange
    apply (Exchange.step_upholds stage station hstands).imp
    · exact fun _ _ hnext => ⟨rfl, hnext⟩
    · exact fun _ _ hnext => hnext
  | poll settings stage =>
    have hsame := Course.meets_of_station (fun next => next.requests = station.requests)
      (Sweep.step_relates Station.passive_requests settings.responseTimeout stage station)
    apply meets_of_poll
    apply hsame.imp
    · exact fun _ _ hnext => ⟨rfl, hnext.trans hstands⟩
    · intro result next hnext
      exact ((Listener.swept_keeps settings result next).2.2.2.trans hnext).trans hstands

theorem follow_stands (operation : Operation) (moments : List Millis) (station : Station τ) :
    Course.Meets
      (fun job next => job.operation = operation ∧ job.Stands station.requests next.standing)
      (fun outcome next => Ends station.requests operation outcome next.standing)
      (Course.follow step moments operation.start station) := by
  apply Course.follow_meets step_stands (fun _ _ _ h => h) moments _ station
  refine ⟨?_, stands_start operation station⟩
  cases operation <;> rfl

end Job

end CellModem
