import CellModem.Bench.Modem
import CellModem.Proofs.Actor
import CellModem.Proofs.Cursor

/-!
Whatever the transport yields, and however it cuts that into reads, no step of anybody on the
transport reaches outside a buffer, and no read is made into no room. While a response is read the
type of its buffer says all of the indices, whatever the size. Elsewhere all that is in a buffer
stands at the front when the next read is made, and that is what each step has to preserve.
-/

namespace CellModem

namespace Station

variable {τ : Type}

/-- All reads in between were made into some room. -/
def ReadsIntoRoom (first last : Station (Logged τ)) : Prop :=
  ∃ news, last.transport.log = first.transport.log ++ news ∧
    ∀ room, Access.read room ∈ news → 0 < room

namespace ReadsIntoRoom

variable {first middle last : Station (Logged τ)}

theorem of_same (h : last.transport = first.transport) : first.ReadsIntoRoom last := by
  refine ⟨[], ?_, fun _ hread => nomatch hread⟩
  rw [h, List.append_nil]

theorem of_access (access : Access)
    (hlog : last.transport.log = first.transport.log ++ [access])
    (hroom : ∀ room, access = .read room → 0 < room) : first.ReadsIntoRoom last :=
  ⟨[access], hlog, fun room hread => hroom room (List.mem_singleton.mp hread).symm⟩

theorem trans (hfirst : first.ReadsIntoRoom middle) (hlast : middle.ReadsIntoRoom last) :
    first.ReadsIntoRoom last := by
  obtain ⟨earlier, hlog, hearlier⟩ := hfirst
  obtain ⟨later, hlog', hlater⟩ := hlast
  refine ⟨earlier ++ later, ?_, ?_⟩
  · rw [hlog', hlog, List.append_assoc]
  · intro room hread
    rcases List.mem_append.mp hread with hread | hread
    · exact hearlier room hread
    · exact hlater room hread

theorem publishAll (h : first.ReadsIntoRoom last) (purpose : Purpose) (signals : List Signal) :
    first.ReadsIntoRoom (last.publishAll purpose signals) := by
  refine h.trans (of_same ?_)
  rw [publishAll_eq]

variable [Transport τ]

theorem read (station : Station (Logged τ)) (purpose : Purpose) {room : Nat} (h : room ≠ 0) :
    station.ReadsIntoRoom (station.read purpose room).2 := by
  apply of_access (.read room)
  · exact congrArg Logged.log (noteRead_transport _ purpose _).1
  · intro other hread
    cases hread
    exact Nat.pos_of_ne_zero h

theorem probe (station : Station (Logged τ)) : station.ReadsIntoRoom station.probe.2 :=
  of_access .ready rfl fun _ hread => nomatch hread

theorem write (station : Station (Logged τ)) (request : Octets) :
    station.ReadsIntoRoom (station.write request).2 :=
  of_access (.write request) (congrArg Logged.log (noteWrite_transport _ request _).1)
    fun _ hread => nomatch hread

theorem awaitWrite (station : Station (Logged τ)) (request : Octets) :
    station.ReadsIntoRoom (station.awaitWrite request).2 :=
  of_access .awaitWrite (congrArg Logged.log (noteWrite_transport _ request _).1)
    fun _ hread => nomatch hread

theorem flush (station : Station (Logged τ)) : station.ReadsIntoRoom station.flush.2 :=
  of_access .flush (congrArg Logged.log (noteFlush_transport _ _).1) fun _ hread => nomatch hread

theorem awaitFlush (station : Station (Logged τ)) : station.ReadsIntoRoom station.awaitFlush.2 :=
  of_access .awaitFlush (congrArg Logged.log (noteFlush_transport _ _).1)
    fun _ hread => nomatch hread

end ReadsIntoRoom

end Station

/-- A step within bounds: with all its checks it comes to the same, what it reads it reads into some
room, and what it goes on or ends with is as said. -/
structure Course.Within {τ σ α : Type} (ready : σ → Prop) (left : α → Prop)
    (station : Station (Logged τ)) (checked : Option (Progress σ α × Station (Logged τ)))
    (outcome : Progress σ α × Station (Logged τ)) : Prop where
  checked_eq : checked = some outcome
  reads : station.ReadsIntoRoom outcome.2
  meets : Course.Meets (fun state _ => ready state) (fun result _ => left result) outcome

namespace Realignment

variable {τ : Type}

/-- There is room in the buffer, and all that is in it stands at the front. -/
structure Ready (realignment : Realignment) : Prop where
  untouched : realignment.purge.buffer.Untouched
  room_ne : realignment.purge.buffer.room ≠ 0

theorem ready_start (station : Station τ) (timeout : Millis) :
    (start station timeout).Ready where
  untouched := Buffer.untouched_empty _
  room_ne := by
    rw [start, Buffer.room_empty]
    decide

theorem step_within [Transport τ] {realignment : Realignment} (h : realignment.Ready)
    (station : Station (Logged τ)) :
    Course.Within Ready (fun _ => True) station (realignment.step? station)
      (realignment.step station) := by
  obtain ⟨purge, timer⟩ := realignment
  obtain ⟨huntouched, hroom⟩ := h
  by_cases hdone : purge.isDone
  · simp only [step?, step, hdone, if_true]
    exact ⟨rfl, .of_same rfl, trivial⟩
  · have hread := Station.ReadsIntoRoom.read station .realignment hroom
    simp only [step?, step, hdone, Bool.false_eq_true, if_false, Buffer.room?_cursor _ hroom,
      Option.bind_eq_bind, Option.bind_some]
    cases hrun : station.read .realignment purge.buffer.room with
    | mk attempt next =>
      rw [hrun] at hread
      cases attempt with
      | waiting =>
        cases hask : timer.ask next.now with
        | some later =>
          simp only [hask]
          exact ⟨rfl, hread, huntouched, hroom⟩
        | none =>
          simp only [hask]
          exact ⟨rfl, hread, trivial⟩
      | failed => exact ⟨rfl, hread, trivial⟩
      | done chunk =>
        by_cases hend : chunk.val = []
        · simp only [hend, if_true]
          exact ⟨rfl, hread, trivial⟩
        · -- a buffer that is full of an unfinished line is emptied, so there is room again
          obtain ⟨hleft, hroom'⟩ := Purge.absorb_untouched huntouched hroom chunk
          simp only [hend, if_false, Purge.discard?_cursor huntouched chunk, Option.bind_some]
          exact ⟨rfl, hread.publishAll .realignment _, hleft, hroom'⟩

end Realignment

namespace Exchange

variable {τ : Type} {station next : Station (Logged τ)}

/-- The buffer for a response is not spoken of: any will do. -/
def Stage.Ready : Stage → Prop
  | .realigning _ realignment => realignment.Ready
  | .queued | .sending _ _ _ | .flushing _ _ | .receiving _ _ => True

/-- What has no checks of its own. -/
abbrev Within (station : Station (Logged τ))
    (outcome : Progress Stage Result × Station (Logged τ)) : Prop :=
  Course.Within Stage.Ready (fun _ => True) station (some outcome) outcome

theorem within_wait (h : station.ReadsIntoRoom next) (timer : Timer) {stage : Timer → Stage}
    (hstage : ∀ timer, (stage timer).Ready) : Within station (wait next timer stage) := by
  unfold wait
  cases timer.ask next.now with
  | some later => exact ⟨rfl, h, hstage later⟩
  | none => exact ⟨rfl, h, trivial⟩

theorem within_sent {outcome : Attempt Nat × Station (Logged τ)}
    (h : station.ReadsIntoRoom outcome.2) (request : Octets) (timer : Timer) :
    Within station (sent request timer outcome) := by
  obtain ⟨attempt, next⟩ := outcome
  cases attempt with
  | waiting => exact within_wait h timer fun _ => trivial
  | failed => exact ⟨rfl, h, trivial⟩
  | done taken =>
    by_cases htaken : taken = request.length
    · simp only [sent, htaken, if_true]
      exact ⟨rfl, h, trivial⟩
    · simp only [sent, htaken, if_false]
      exact ⟨rfl, h, trivial⟩

theorem within_flushed {outcome : Attempt Unit × Station (Logged τ)}
    (h : station.ReadsIntoRoom outcome.2) (call : Call) (timer : Timer) :
    Within station (flushed call timer outcome) := by
  obtain ⟨attempt, next⟩ := outcome
  cases attempt with
  | waiting => exact within_wait h timer fun _ => trivial
  | failed => exact ⟨rfl, h, trivial⟩
  | done result => exact ⟨rfl, h, trivial⟩

theorem within_received (h : station.ReadsIntoRoom next) (timer : Timer)
    (outcome : Reception.Outcome × List Signal) :
    Within station (received timer next outcome) := by
  obtain ⟨outcome, signals⟩ := outcome
  have hpublished := h.publishAll .response signals
  cases outcome with
  | unfinished buffer => exact ⟨rfl, hpublished, trivial⟩
  | ended ending =>
    obtain ⟨verdict, payload, cut⟩ := ending
    cases verdict <;> cases cut <;> exact ⟨rfl, hpublished, trivial⟩

variable [Transport τ]

theorem within_queued (call : Call) (station : Station (Logged τ)) :
    Within station (step call .queued station) := by
  simp only [step]
  cases call.request? with
  | none => exact ⟨rfl, .of_same rfl, trivial⟩
  | some request =>
    by_cases hlocked : station.locked
    · simp only [hlocked, if_true]
      exact ⟨rfl, .of_same rfl, trivial⟩
    · by_cases haligned : station.lock.alignment = .aligned
      · simp only [hlocked, haligned, if_true, Bool.false_eq_true, if_false]
        exact ⟨rfl, .of_same rfl, trivial⟩
      · simp only [hlocked, haligned, Bool.false_eq_true, if_false]
        exact ⟨rfl, .of_same rfl, Realignment.ready_start _ _⟩

theorem within_realigning (call : Call) (request : Octets) {realignment : Realignment}
    (h : realignment.Ready) (station : Station (Logged τ)) :
    Course.Within Stage.Ready (fun _ => True) station
      (step? call (.realigning request realignment) station)
      (step call (.realigning request realignment) station) := by
  obtain ⟨hchecked, hreads, hmeets⟩ := Realignment.step_within h station
  simp only [step?, step, hchecked, Option.bind_eq_bind, Option.bind_some]
  cases hrun : realignment.step station with
  | mk progress next =>
    rw [hrun] at hreads hmeets
    cases progress with
    | moved later => exact ⟨rfl, hreads, hmeets⟩
    | waiting later => exact ⟨rfl, hreads, hmeets⟩
    | finished result => exact ⟨rfl, hreads, trivial⟩

/-- A buffer for a response may have any size: one that is full ends the exchange before the next
read. -/
theorem within_receiving (call : Call) (buffer : Buffer) (timer : Timer)
    (station : Station (Logged τ)) :
    Course.Within Stage.Ready (fun _ => True) station (step? call (.receiving buffer timer) station)
      (step call (.receiving buffer timer) station) := by
  have hfull := buffer.filled_eq_length_iff
  by_cases hroom : buffer.room = 0
  · simp only [step?, step, hfull, hroom, if_true]
    exact ⟨rfl, .of_same rfl, trivial⟩
  · have hread := Station.ReadsIntoRoom.read station .response hroom
    simp only [step?, step, hfull, hroom, if_false, Buffer.room?_cursor _ hroom,
      Option.bind_eq_bind, Option.bind_some]
    cases hrun : station.read .response buffer.room with
    | mk attempt next =>
      rw [hrun] at hread
      cases attempt with
      | waiting => exact within_wait hread timer fun _ => trivial
      | failed => exact ⟨rfl, hread, trivial⟩
      | done chunk =>
        by_cases hend : chunk.val = []
        · simp only [hend, if_true]
          exact ⟨rfl, hread, trivial⟩
        · simp only [hend, if_false, Cursor.receive?_cursor, Option.bind_some]
          exact within_received hread timer _

theorem step_within (call : Call) {stage : Stage} (h : stage.Ready)
    (station : Station (Logged τ)) :
    Course.Within Stage.Ready (fun _ => True) station (step? call stage station)
      (step call stage station) := by
  cases stage with
  | queued => exact within_queued call station
  | realigning request realignment => exact within_realigning call request h station
  | sending request timer begun =>
    cases begun with
    | false => exact within_sent (.write station request) request timer
    | true => exact within_sent (.awaitWrite station request) request timer
  | flushing timer begun =>
    cases begun with
    | false => exact within_flushed (.flush station) call timer
    | true => exact within_flushed (.awaitFlush station) call timer
  | receiving buffer timer => exact within_receiving call buffer timer station

end Exchange

namespace Sweep

variable {τ : Type}

def Stage.Ready : Stage → Prop
  | .realigning realignment => realignment.Ready
  | .completing buffer _ => buffer.Untouched
  | .queued | .reading => True

/-- The lines that were brought in, if any, stand at the front of the buffer. -/
def Result.Untouched (result : Result) : Prop :=
  ∀ buffer, result = .ok (some buffer) → buffer.Untouched

theorem untouched_error (cause : Error) : Result.Untouched (.error cause) := by
  intro other hother
  cases hother

theorem untouched_none : Result.Untouched (.ok none) := by
  intro other hother
  cases hother

theorem untouched_some {buffer : Buffer} (h : buffer.Untouched) :
    Result.Untouched (.ok (some buffer)) := by
  intro other hother
  cases hother
  exact h

variable [Transport τ]

theorem within_queued (timeout : Millis) (station : Station (Logged τ)) :
    Course.Within Stage.Ready Result.Untouched station (step? timeout .queued station)
      (step timeout .queued station) := by
  by_cases hlocked : station.locked
  · simp only [step?, step, hlocked, if_true]
    exact ⟨rfl, .of_same rfl, trivial⟩
  · have hprobe := Station.ReadsIntoRoom.probe station.lock
    simp only [step?, step, hlocked, Bool.false_eq_true, if_false]
    cases hrun : station.lock.probe with
    | mk ready next =>
      rw [hrun] at hprobe
      cases ready with
      | none => exact ⟨rfl, hprobe, untouched_error .transport⟩
      | some found =>
        cases found with
        | false => exact ⟨rfl, hprobe, untouched_none⟩
        | true =>
          by_cases haligned : next.alignment = .aligned
          · simp only [haligned, if_true]
            exact ⟨rfl, hprobe, trivial⟩
          · simp only [haligned, if_false]
            exact ⟨rfl, hprobe, Realignment.ready_start next timeout⟩

theorem within_realigning (timeout : Millis) {realignment : Realignment}
    (h : realignment.Ready) (station : Station (Logged τ)) :
    Course.Within Stage.Ready Result.Untouched station
      (step? timeout (.realigning realignment) station)
      (step timeout (.realigning realignment) station) := by
  obtain ⟨hchecked, hreads, hmeets⟩ := Realignment.step_within h station
  simp only [step?, step, hchecked, Option.bind_eq_bind, Option.bind_some]
  cases hrun : realignment.step station with
  | mk progress next =>
    rw [hrun] at hreads hmeets
    cases progress with
    | moved later => exact ⟨rfl, hreads, hmeets⟩
    | waiting later => exact ⟨rfl, hreads, hmeets⟩
    | finished result => exact ⟨rfl, hreads, untouched_none⟩

theorem within_reading (timeout : Millis) (station : Station (Logged τ)) :
    Course.Within Stage.Ready Result.Untouched station (step? timeout .reading station)
      (step timeout .reading station) := by
  have hroom : (Buffer.empty Limits.response).room ≠ 0 := by
    rw [Buffer.room_empty]
    decide
  have hread := Station.ReadsIntoRoom.read station .sweep hroom
  simp only [step?, step, Buffer.room?_cursor _ hroom, Option.bind_eq_bind, Option.bind_some]
  cases hrun : station.read .sweep (Buffer.empty Limits.response).room with
  | mk attempt next =>
    rw [hrun] at hread
    cases attempt with
    | waiting => exact ⟨rfl, hread, trivial⟩
    | failed => exact ⟨rfl, hread, untouched_error .transport⟩
    | done chunk =>
      by_cases hend : chunk.val = []
      · simp only [hend, if_true]
        exact ⟨rfl, hread, untouched_some (Buffer.untouched_empty _)⟩
      · simp only [hend, if_false, Buffer.fill?_cursor, Buffer.check?_cursor, Option.bind_some]
        exact ⟨rfl, hread, (Buffer.untouched_empty _).fill chunk⟩

theorem within_completing (timeout : Millis) {buffer : Buffer} (h : buffer.Untouched)
    (timer : Timer) (station : Station (Logged τ)) :
    Course.Within Stage.Ready Result.Untouched station
      (step? timeout (.completing buffer timer) station)
      (step timeout (.completing buffer timer) station) := by
  have hresult := untouched_some h
  have hfull := buffer.filled_eq_length_iff
  simp only [step?, step, h.slice?_eq, hfull, Option.bind_eq_bind, Option.bind_some]
  by_cases hended : buffer.pending.getLast? = some Line.lineFeed
  · simp only [hended, if_true]
    exact ⟨rfl, .of_same rfl, hresult⟩
  · by_cases hroom : buffer.room = 0
    · simp only [hended, hroom, if_true, if_false]
      exact ⟨rfl, .of_same rfl, hresult⟩
    · have hread := Station.ReadsIntoRoom.read station .sweep hroom
      simp only [hended, hroom, if_false, Buffer.room?_cursor _ hroom, Option.bind_some]
      cases hrun : station.read .sweep buffer.room with
      | mk attempt next =>
        rw [hrun] at hread
        cases attempt with
        | waiting =>
          cases hask : timer.ask next.now with
          | some later =>
            simp only [hask]
            exact ⟨rfl, hread, h⟩
          | none =>
            simp only [hask]
            exact ⟨rfl, hread, hresult⟩
        | failed => exact ⟨rfl, hread, hresult⟩
        | done chunk =>
          by_cases hend : chunk.val = []
          · simp only [hend, if_true]
            exact ⟨rfl, hread, hresult⟩
          · simp only [hend, if_false, Buffer.fill?_cursor, Buffer.check?_cursor,
              Option.bind_some]
            exact ⟨rfl, hread, h.fill chunk⟩

theorem step_within (timeout : Millis) {stage : Stage} (h : stage.Ready)
    (station : Station (Logged τ)) :
    Course.Within Stage.Ready Result.Untouched station (step? timeout stage station)
      (step timeout stage station) := by
  cases stage with
  | queued => exact within_queued timeout station
  | realigning realignment => exact within_realigning timeout h station
  | reading => exact within_reading timeout station
  | completing buffer timer => exact within_completing timeout h timer station

end Sweep

/-- Going through what a sweep brought in stays within the storage. -/
theorem Listener.swept?_eq {τ : Type} (settings : Settings) {result : Sweep.Result}
    (h : result.Untouched) (station : Station τ) :
    swept? settings result station = some (swept settings result station) := by
  match result with
  | .error cause => rfl
  | .ok none => rfl
  | .ok (some buffer) =>
    have hcursor := (h buffer rfl).cursor_eq
    by_cases hempty : buffer.filled = 0
    · simp only [swept?, swept, hempty, if_true]
    · simp only [swept?, swept, hempty, if_false, ← hcursor, Cursor.dispatch?_cursor,
        Option.bind_eq_bind, Option.bind_some]
      rfl

namespace Job

variable {τ : Type}

def Ready : Job → Prop
  | .exchange _ stage => stage.Ready
  | .poll _ stage => stage.Ready

theorem ready_of_isQueued {job : Job} (h : job.isQueued = true) : job.Ready := by
  cases job with
  | exchange call stage => cases stage <;> trivial
  | poll settings stage => cases stage <;> trivial

theorem step_within [Transport τ] {job : Job} (h : job.Ready) (station : Station (Logged τ)) :
    Course.Within Ready (fun _ => True) station (job.step? station) (job.step station) := by
  cases job with
  | exchange call stage =>
    obtain ⟨hchecked, hreads, hmeets⟩ := Exchange.step_within call h station
    simp only [step?, step, hchecked, Option.bind_eq_bind, Option.bind_some]
    cases hrun : Exchange.step call stage station with
    | mk progress next =>
      rw [hrun] at hreads hmeets
      cases progress with
      | moved later => exact ⟨rfl, hreads, hmeets⟩
      | waiting later => exact ⟨rfl, hreads, hmeets⟩
      | finished result => exact ⟨rfl, hreads, trivial⟩
  | poll settings stage =>
    obtain ⟨hchecked, hreads, hmeets⟩ := Sweep.step_within settings.responseTimeout h station
    simp only [step?, step, hchecked, Option.bind_eq_bind, Option.bind_some]
    cases hrun : Sweep.step settings.responseTimeout stage station with
    | mk progress next =>
      rw [hrun] at hreads hmeets
      cases progress with
      | moved later => exact ⟨rfl, hreads, hmeets⟩
      | waiting later => exact ⟨rfl, hreads, hmeets⟩
      | finished result =>
        have htransport := (Listener.swept_keeps settings result next).1
        simp only [Listener.swept?_eq settings hmeets next, Option.bind_some]
        exact ⟨rfl, hreads.trans (.of_same htransport), trivial⟩

end Job

namespace Actor

variable {α τ : Type}

def Ready (actor : Actor α) : Prop :=
  ∀ job, actor.job? = some job → job.Ready

theorem Awaits.ready {actor : Actor α} (h : actor.Awaits) : actor.Ready :=
  fun job hjob => Job.ready_of_isQueued (h job hjob)

theorem ready_of_job {actor : Actor α} {job : Job} (hjob : actor.job? = some job)
    (h : job.Ready) : actor.Ready := by
  intro other hother
  rw [hjob] at hother
  cases hother
  exact h

theorem step_ready [Transport τ] {actor : Actor α} (h : actor.Ready)
    (station : Station (Logged τ)) :
    (actor.step station).1.Ready ∧ station.ReadsIntoRoom (actor.step station).2 := by
  cases hjob : actor.job? with
  | none =>
    -- a job that is taken up now has to wait for the lock first
    obtain ⟨hagrees, -, hawaits⟩ := step_of_idle hjob station
    exact ⟨hawaits.ready, .of_same hagrees.transport.symm⟩
  | some job =>
    obtain ⟨hstation, hactor⟩ := step_of_job hjob station
    obtain ⟨-, hreads, hmeets⟩ := Job.step_within (h job hjob) station
    rw [← hstation] at hreads
    refine ⟨?_, hreads⟩
    cases hrun : job.step station with
    | mk progress next =>
      rw [hrun] at hactor hmeets
      cases progress with
      | moved later => exact ready_of_job hactor hmeets
      | waiting later => exact ready_of_job hactor hmeets
      | finished outcome => exact hactor.ready

end Actor

namespace System

variable {ι α τ : Type} {system : System ι α τ}

/-- So far nobody has read into no room, and nobody is about to leave a buffer. -/
structure Bounded (system : System ι α τ) : Prop where
  ready (place : ι) : (system.actors place).Ready
  reads (room : Nat) : Access.read room ∈ system.station.transport.log → 0 < room

theorem bounded_start (transport : τ) (board : Bulletin Signal) :
    (start transport board : System ι α τ).Bounded :=
  ⟨fun _ => (Actor.awaits_of_idle rfl).ready, fun _ hread => nomatch hread⟩

namespace Bounded

variable [DecidableEq ι]

theorem put (h : system.Bounded) (place : ι) {actor : Actor α} (hactor : actor.Ready) :
    (system.put place actor).Bounded := by
  refine ⟨?_, h.reads⟩
  intro other
  by_cases hplace : other = place
  · simpa only [System.put, hplace, if_true] using hactor
  · simpa only [System.put, hplace, if_false] using h.ready other

theorem seat (h : system.Bounded) (place : ι) {actor : Actor α} (hactor : actor.Ready) :
    (system.seat place actor).Bounded := by
  unfold System.seat
  split
  case isTrue => exact h.put place hactor
  case isFalse => exact h

variable [Transport τ]

theorem act (h : system.Bounded) (place : ι) : (system.act place).Bounded := by
  obtain ⟨hactor, news, hlog, hnews⟩ := Actor.step_ready (h.ready place) system.station
  refine ⟨(h.put place hactor).ready, ?_⟩
  intro room hread
  change Access.read room ∈ ((system.actors place).step system.station).2.transport.log at hread
  rw [hlog] at hread
  rcases List.mem_append.mp hread with hread | hread
  · exact h.reads room hread
  · exact hnews room hread

theorem step (h : system.Bounded) (choice : Choice ι α) : (system.step choice).Bounded := by
  cases choice with
  | talk place program => exact h.seat place (Actor.awaits_talk program).ready
  | listen place settings => exact h.seat place (Actor.awaits_of_idle rfl).ready
  | act place => exact h.act place
  | pass moment => exact ⟨h.ready, h.reads⟩
  | requestStop => exact ⟨h.ready, h.reads⟩

theorem run (h : system.Bounded) (schedule : List (Choice ι α)) :
    (system.run schedule).Bounded := by
  induction schedule generalizing system with
  | nil => exact h
  | cons choice schedule ih => exact ih (h.step choice)

end Bounded

variable [DecidableEq ι] [Transport τ]

/-- At any time, and whatever anybody has been doing until then, the next step of each job comes
about with all its checks, and comes to what it comes to without. Every read so far was made into
some room, so that one that yielded no bytes found the end of the stream. The same goes for a job on
any other station, and with buffers of any other size, if only what is in them stands at the
front. -/
theorem within_bounds (transport : τ) (board : Bulletin Signal) (schedule : List (Choice ι α)) :
    let system := (start transport board : System ι α τ).run schedule
    (∀ place job, (system.actors place).job? = some job →
      job.step? system.station = some (job.step system.station)) ∧
    (∀ room, Access.read room ∈ system.station.transport.log → 0 < room) ∧
    ∀ (job : Job) (station : Station (Logged τ)), job.Ready →
      job.step? station = some (job.step station) ∧
        station.ReadsIntoRoom (job.step station).2 := by
  intro system
  have hbounded : Bounded system := (bounded_start transport board).run schedule
  refine ⟨?_, hbounded.reads, ?_⟩
  · intro place job hjob
    exact (Job.step_within (hbounded.ready place job hjob) _).checked_eq
  · intro job station hready
    obtain ⟨hchecked, hreads, -⟩ := Job.step_within hready station
    exact ⟨hchecked, hreads⟩

/-- A buffer without any room is not read into. One with room for a byte is, and so finds the end of
the stream. -/
theorem within_bounds_narrow :
    let call (size : Nat) : Call :=
      { command := "AT+CFUN?", terminator := "\r\n", timeout := 500, size }
    let job (size : Nat) : Job :=
      .exchange (call size) (.receiving (.empty size) { deadline := 500 })
    let modem : Bench.Modem := { wire := [⟨.ended, 0⟩] }
    let station : Station (Logged Bench.Modem) :=
      { transport := { transport := modem }, locked := true }
    (∀ size, (job size).step? station = some ((job size).step station)) ∧
      ((job 0).step station).2.transport.log = [] ∧
      ((job 1).step station).2.transport.log = [.read 1] := by
  intro call job modem station
  obtain ⟨-, -, hjobs⟩ := within_bounds (ι := Unit) (α := Unit) modem {} []
  exact ⟨fun size => (hjobs (job size) station trivial).1, by decide, by decide⟩

end System

end CellModem
