import CellModem.Proofs.Chronicle

/-!
What a sweep brings in. Its buffer holds the bytes that were read since it obtained the lock, in
order and no others, however the transport cuts them and whatever ends the line. Other users come
and go meanwhile without a read, so the whole of it can be told from the station at the step that
obtained the lock and at the last one.
-/

namespace CellModem

open Line Station

/-- The bytes of a read, if there are any. -/
def Attempt.bytes {room : Nat} : Attempt (Chunk room) → Octets
  | .done chunk => chunk.val
  | .failed | .waiting => []

namespace Course

variable {τ σ α : Type} {invariant : σ → Station τ → Prop} {post : α → Station τ → Prop}
  {outcome : Progress σ α × Station τ} {state : σ}

theorem Meets.of_progress (h : Meets invariant post outcome)
    (hprogress : outcome.1 = .moved state ∨ outcome.1 = .waiting state) :
    invariant state outcome.2 := by
  obtain ⟨progress, station⟩ := outcome
  rcases hprogress with hmoved | hwaiting
  · cases hmoved
    exact h
  · cases hwaiting
    exact h

end Course

namespace Station

variable {τ : Type}

theorem received_record (station : Station τ) (event : Event) :
    (station.record event).received = station.received ++ event.receivedBytes := by
  simp [received, record]

theorem received_lock (station : Station τ) : station.lock.received = station.received :=
  (received_record _ _).trans (List.append_nil _)

theorem received_unlock (station : Station τ) : station.unlock.received = station.received :=
  (received_record _ _).trans (List.append_nil _)

theorem received_align (station : Station τ) (alignment : Alignment) :
    (station.align alignment).received = station.received :=
  (received_record _ _).trans (List.append_nil _)

theorem Agrees.received_eq {first second : Station τ} (h : first.Agrees second) :
    first.received = second.received := by
  rw [received_eq_happened, received_eq_happened, h.happened]

variable [Transport τ]

theorem received_probe (station : Station τ) : station.probe.2.received = station.received :=
  (received_record _ _).trans (List.append_nil _)

omit [Transport τ] in
theorem gathers_noteRead {room : Nat} (station : Station τ) (purpose : Purpose)
    (attempt : Attempt (Chunk room)) :
    (station.noteRead purpose attempt).alignment = station.alignment ∧
      (station.noteRead purpose attempt).received = station.received ++ attempt.bytes := by
  cases attempt with
  | done chunk => exact ⟨rfl, received_record _ _⟩
  | failed => exact ⟨rfl, received_record _ _⟩
  | waiting => exact ⟨rfl, (List.append_nil _).symm⟩

/-- A read adds its bytes, if there are any, and leaves the alignment of the stream. -/
theorem gathers_read {station next : Station τ} {purpose : Purpose} {room : Nat}
    {attempt : Attempt (Chunk room)} (h : station.read purpose room = (attempt, next)) :
    next.alignment = station.alignment ∧
      next.received = station.received ++ attempt.bytes := by
  cases h
  exact gathers_noteRead _ purpose _

end Station

namespace Sweep

variable {τ : Type}

/-- How far a sweep has come that found `before` received when it obtained the lock. -/
def Gathers (before : Octets) : Stage → Station τ → Prop
  | .queued, _ => False
  | .realigning _, _ => True
  | .reading, station => station.received = before ∧ station.alignment = .aligned
  | .completing buffer _, station =>
      buffer.scanned = 0 ∧ buffer.pending ≠ [] ∧
        station.received = before ++ buffer.pending ∧ station.alignment = .aligned

/-- And what it has brought in at its end. -/
def Gathered (before : Octets) : Result → Station τ → Prop
  | .ok (some buffer), station =>
      buffer.scanned = 0 ∧ station.received = before ++ buffer.pending ∧
        station.alignment =
          if buffer.pending = [] ∨ buffer.pending.getLast? = some lineFeed then .aligned
          else .midLine
  | .ok none, _ | .error _, _ => True

theorem Gathers.of_agrees {before : Octets} {stage : Stage} {station next : Station τ}
    (h : Gathers before stage station) (hagrees : station.Agrees next) :
    Gathers before stage next := by
  cases stage with
  | queued => exact h
  | realigning realignment => trivial
  | reading =>
    obtain ⟨hreceived, haligned⟩ := h
    exact ⟨hagrees.received_eq.symm.trans hreceived, hagrees.alignment.symm.trans haligned⟩
  | completing buffer timer =>
    obtain ⟨hscanned, hsome, hreceived, haligned⟩ := h
    exact ⟨hscanned, hsome, hagrees.received_eq.symm.trans hreceived,
      hagrees.alignment.symm.trans haligned⟩

section Steps

variable {before : Octets} {station : Station τ} {buffer : Buffer} {timer : Timer}

theorem gathered_of_line (hscanned : buffer.scanned = 0)
    (hlast : buffer.pending.getLast? = some lineFeed)
    (hreceived : station.received = before ++ buffer.pending)
    (haligned : station.alignment = .aligned) :
    Course.Meets (Gathers before) (Gathered before) (finish station (.ok (some buffer))) := by
  refine ⟨hscanned, (received_unlock station).trans hreceived, ?_⟩
  rw [if_pos (Or.inr hlast)]
  exact haligned

/-- Whatever has cut the line, the bytes in front of the cut are there. -/
theorem gathered_of_cut (hscanned : buffer.scanned = 0) (hsome : buffer.pending ≠ [])
    (hlast : buffer.pending.getLast? ≠ some lineFeed)
    (hreceived : station.received = before ++ buffer.pending) :
    Course.Meets (Gathers before) (Gathered before) (cutShort station buffer) := by
  refine ⟨hscanned, ?_, ?_⟩
  · exact (received_unlock _).trans ((received_align station .midLine).trans hreceived)
  · rw [if_neg (not_or_intro hsome hlast)]
    rfl

variable [Transport τ] {timeout : Millis}

theorem gathers_reading (h : Gathers before .reading station) :
    Course.Meets (Gathers before) (Gathered before) (step timeout .reading station) := by
  obtain ⟨hreceived, haligned⟩ := h
  simp only [step]
  cases hrun : station.read .sweep (Buffer.empty Limits.response).room with
  | mk attempt next =>
    obtain ⟨hsame, hread⟩ := gathers_read hrun
    rw [hreceived] at hread
    rw [haligned] at hsame
    cases attempt with
    | waiting => exact ⟨hread.trans (List.append_nil _), hsame⟩
    | failed => trivial
    | done chunk =>
      by_cases hend : chunk.val = []
      · have hnothing : (Attempt.done chunk).bytes = [] := hend
        simp only [hend, if_true]
        refine ⟨rfl, ?_, ?_⟩
        · rw [received_unlock, hread, hnothing, Buffer.pending_empty]
        · rw [Buffer.pending_empty, if_pos (Or.inl rfl)]
          exact hsame
      · have hpending : ((Buffer.empty Limits.response).fill chunk).pending = chunk.val := by
          rw [Buffer.pending_fill, Buffer.pending_empty, List.nil_append]
        simp only [hend, if_false]
        refine ⟨rfl, ?_, ?_, hsame⟩
        · rw [hpending]
          exact hend
        · rw [hpending]
          exact hread

theorem gathers_completing (h : Gathers before (.completing buffer timer) station) :
    Course.Meets (Gathers before) (Gathered before)
      (step timeout (.completing buffer timer) station) := by
  obtain ⟨hscanned, hsome, hreceived, haligned⟩ := h
  unfold step
  by_cases hlast : buffer.pending.getLast? = some lineFeed
  · simp only [hlast, if_true]
    exact gathered_of_line hscanned hlast hreceived haligned
  · by_cases hfull : buffer.room = 0
    · simp only [hlast, hfull, if_true, if_false]
      exact gathered_of_cut hscanned hsome hlast hreceived
    · simp only [hlast, hfull, if_false]
      cases hrun : station.read .sweep buffer.room with
      | mk attempt next =>
        obtain ⟨hsame, hread⟩ := gathers_read hrun
        rw [hreceived] at hread
        rw [haligned] at hsame
        have hsilent (hnothing : attempt.bytes = []) :
            next.received = before ++ buffer.pending := by
          rw [hread, hnothing, List.append_nil]
        cases attempt with
        | waiting =>
          cases hask : timer.ask next.now with
          | some later =>
            simp only [hask]
            exact ⟨hscanned, hsome, hsilent rfl, hsame⟩
          | none =>
            simp only [hask]
            exact gathered_of_cut hscanned hsome hlast (hsilent rfl)
        | failed => exact gathered_of_cut hscanned hsome hlast (hsilent rfl)
        | done chunk =>
          by_cases hend : chunk.val = []
          · simp only [hend, if_true]
            exact gathered_of_cut hscanned hsome hlast (hsilent hend)
          · simp only [hend, if_false]
            refine ⟨hscanned, ?_, ?_, hsame⟩
            · rw [Buffer.pending_fill]
              simp [hsome]
            · rw [Buffer.pending_fill, ← List.append_assoc]
              exact hread

end Steps

variable [Transport τ]

/-- A sweep gathers what it reads. -/
theorem step_gathers {before : Octets} (timeout : Millis) (stage : Stage) (station : Station τ)
    (h : Gathers before stage station) :
    Course.Meets (Gathers before) (Gathered before) (step timeout stage station) := by
  cases stage with
  | queued => exact h.elim
  | realigning realignment =>
    simp only [step]
    cases realignment.step station with
    | mk progress next => cases progress <;> trivial
  | reading => exact gathers_reading h
  | completing buffer timer => exact gathers_completing h

theorem gathers_queued {timeout : Millis} {station : Station τ} (hfree : station.locked = false) :
    Course.Meets (Gathers station.received) (Gathered station.received)
      (step timeout .queued station) := by
  have hreceived : station.lock.probe.2.received = station.received :=
    (received_probe _).trans (received_lock _)
  simp only [step, hfree]
  cases hrun : station.lock.probe with
  | mk ready next =>
    rw [hrun] at hreceived
    cases ready with
    | none => trivial
    | some pending =>
      cases pending with
      | false => trivial
      | true =>
        by_cases haligned : next.alignment = .aligned
        · simp only [haligned, if_true]
          exact ⟨hreceived, haligned⟩
        · simp only [haligned, if_false]
          trivial

/-- No sweep ends with a buffer at once. -/
theorem stage_ne_queued {timeout : Millis} {stage : Stage} {station after : Station τ}
    {buffer : Buffer} (h : step timeout stage station = (.finished (.ok (some buffer)), after)) :
    stage ≠ .queued := by
  rintro rfl
  cases hlocked : station.locked with
  | true => simp [step, hlocked] at h
  | false =>
    simp only [step, hlocked] at h
    cases hrun : station.lock.probe with
    | mk ready next =>
      rw [hrun] at h
      cases ready with
      | none => simp [finish] at h
      | some pending =>
        cases pending with
        | false => simp [finish] at h
        | true => by_cases haligned : next.alignment = .aligned <;> simp [haligned] at h

end Sweep

namespace Job

/-- If this is a sweep, it gathers what has come in since that station. -/
def Gathers {τ : Type} (base : Station τ) : Job → Station τ → Prop
  | .exchange _ _, _ => True
  | .poll _ stage, station => Sweep.Gathers base.received stage station

variable {τ : Type} [Transport τ] {job next : Job} {station : Station τ}

theorem gathers_start (operation : Operation) (hfree : station.locked = false) :
    Course.Meets (Gathers station) (fun _ _ => True) (operation.start.step station) := by
  cases operation with
  | exchange call =>
    exact meets_of_exchange (Course.meets_of_station (fun _ => True) trivial)
  | poll settings =>
    apply meets_of_poll
    apply (Sweep.gathers_queued hfree).imp
    · exact fun _ _ hnext => hnext
    · exact fun _ _ _ => trivial

theorem step_gathers {base : Station τ} (h : job.Gathers base station) :
    Course.Meets (Gathers base) (fun _ _ => True) (job.step station) := by
  cases job with
  | exchange call stage =>
    exact meets_of_exchange (Course.meets_of_station (fun _ => True) trivial)
  | poll settings stage =>
    apply meets_of_poll
    apply (Sweep.step_gathers settings.responseTimeout stage station h).imp
    · exact fun _ _ hnext => hnext
    · exact fun _ _ _ => trivial


omit [Transport τ] in
theorem Gathers.of_agrees {base after : Station τ} (h : job.Gathers base station)
    (hagrees : station.Agrees after) : job.Gathers base after := by
  cases job with
  | exchange call stage => trivial
  | poll settings stage => exact Sweep.Gathers.of_agrees h hagrees

theorem operation_of_progress
    (hprogress : (job.step station).1 = .moved next ∨ (job.step station).1 = .waiting next) :
    job.operation = next.operation := by
  have hsame : Course.Meets (fun next _ => job.operation = next.operation) (fun _ _ => True)
      (job.step station) := by
    cases job with
    | exchange call stage =>
      apply meets_of_exchange
      cases Exchange.step call stage station with
      | mk progress after => cases progress <;> trivial
    | poll settings stage =>
      apply meets_of_poll
      cases Sweep.step settings.responseTimeout stage station with
      | mk progress after => cases progress <;> trivial
  exact hsame.of_progress hprogress

/-- A job that leaves the queue may go for the lock, and finds it free. -/
theorem obtains_of_progress (hqueued : job.isQueued = true) (hnext : next.isQueued = false)
    (hprogress : (job.step station).1 = .moved next ∨ (job.step station).1 = .waiting next) :
    job.operation.isSendable = true ∧ station.locked = false := by
  cases hsendable : job.operation.isSendable with
  | false =>
    rw [step_unsendable hqueued hsendable] at hprogress
    rcases hprogress with hno | hno <;> cases hno
  | true =>
    cases hlocked : station.locked with
    | false => exact ⟨rfl, rfl⟩
    | true =>
      rw [step_locked hqueued hsendable hlocked] at hprogress
      rcases hprogress with hno | hwaiting
      · cases hno
      · cases hwaiting
        rw [hqueued] at hnext
        cases hnext

end Job

namespace System

variable {ι α τ : Type} [Transport τ] {first : Station (Logged τ)} {system : System ι α τ}
  {place : ι} {job : Job}

/-- A job that is under way is that of a block, which has the lock, and everybody else at most waits
for it. -/
theorem Explained.exists_block (h : Explained first system)
    (hjob : (system.actors place).job? = some job) (hqueued : job.isQueued = false) :
    system.station.locked = true ∧ (∀ other, other ≠ place → (system.actors other).Awaits) ∧
      ∃ (block : Block ι) (middle last : Station (Logged τ)),
        block.Runs middle (.moved job) last ∧ last.Agrees system.station := by
  cases h with
  | free hserial hended hmirrors hfree hawaits =>
    rw [hawaits place job hjob] at hqueued
    cases hqueued
  | @held blocks block holding middle last hserial hended hblock hmirrors hlocked hheld howner
      hawaits =>
    have hplace : place = block.actor := by
      apply Classical.byContradiction
      intro hother
      rw [hawaits place hother job hjob] at hqueued
      cases hqueued
    subst hplace
    rw [howner] at hjob
    cases hjob
    exact ⟨hlocked, hawaits, block, middle, last, hblock, hmirrors.agrees⟩

variable [DecidableEq ι]

/-- Whoever has to wait for the lock changes nothing that it protects. -/
theorem act_of_awaits (hlocked : system.station.locked = true)
    (hawaits : (system.actors place).Awaits) :
    system.station.Agrees (system.act place).station := by
  cases hjob : (system.actors place).job? with
  | none => exact (Actor.step_of_idle hjob system.station).1
  | some job =>
    have hqueued := hawaits job hjob
    cases hsendable : job.operation.isSendable with
    | false =>
      rw [(act_of_unsendable hjob hqueued hsendable).1]
      exact .refl _
    | true =>
      have hstation : (system.act place).station = (job.step system.station).2 :=
        (Actor.step_of_job hjob system.station).1
      rw [hstation, Job.step_locked hqueued hsendable hlocked]
      exact .refl _

omit [Transport τ] in
theorem station_seat (system : System ι α τ) (place : ι) (actor : Actor α) :
    (system.seat place actor).station = system.station := by
  unfold seat
  split <;> rfl

omit [Transport τ] in
/-- A job that is under way is not that of a user who was just seated. -/
theorem job_of_seat {actor : Actor α} {other : ι} (hactor : actor.Awaits)
    (hjob : ((system.seat other actor).actors place).job? = some job)
    (hqueued : job.isQueued = false) : (system.actors place).job? = some job := by
  unfold seat at hjob
  split at hjob
  case isTrue hfree =>
    by_cases hplace : place = other
    · rw [hplace, actors_put_self] at hjob
      rw [hactor job hjob] at hqueued
      cases hqueued
    · rwa [actors_put_ne system actor hplace] at hjob
  case isFalse => exact hjob

/-- What others do while a job is under way leaves it, and all that the lock protects, as it is. -/
theorem step_of_others {choice : Choice ι α} (h : Explained first system)
    (hjob : ((system.step choice).actors place).job? = some job)
    (hqueued : job.isQueued = false) (hother : choice ≠ .act place) :
    (system.actors place).job? = some job ∧
      system.station.Agrees (system.step choice).station := by
  cases choice with
  | talk other program =>
    refine ⟨job_of_seat (Actor.awaits_talk program) hjob hqueued, ?_⟩
    rw [step, station_seat]
    exact .refl _
  | listen other settings =>
    refine ⟨job_of_seat (Actor.awaits_of_idle rfl) hjob hqueued, ?_⟩
    rw [step, station_seat]
    exact .refl _
  | act other =>
    have hne : other ≠ place := fun heq => hother (by rw [heq])
    have hbefore : (system.actors place).job? = some job := by
      rw [step, actors_act_ne system hne.symm] at hjob
      exact hjob
    obtain ⟨hlocked, hawaits, -⟩ := h.exists_block hbefore hqueued
    exact ⟨hbefore, act_of_awaits hlocked (hawaits other hne)⟩
  | pass moment => exact ⟨hjob, ⟨rfl, rfl, rfl, rfl, rfl, rfl, rfl⟩⟩
  | requestStop => exact ⟨hjob, ⟨rfl, rfl, rfl, rfl, rfl, rfl, rfl⟩⟩

/-- Whoever has a job under way behind a step of its own has taken a step of it. -/
theorem job_of_act (hjob : ((system.act place).actors place).job? = some job)
    (hqueued : job.isQueued = false) :
    ∃ earlier, (system.actors place).job? = some earlier ∧
      (system.act place).station = (earlier.step system.station).2 ∧
      ((earlier.step system.station).1 = .moved job ∨
        (earlier.step system.station).1 = .waiting job) := by
  rw [actors_act_self] at hjob
  have hnot : ¬ ((system.actors place).step system.station).1.Awaits := by
    intro hawaits
    rw [hawaits job hjob] at hqueued
    cases hqueued
  cases hearlier : (system.actors place).job? with
  | none => exact absurd (Actor.step_of_idle hearlier system.station).2.2 hnot
  | some earlier =>
    obtain ⟨hstation, hnext⟩ := Actor.step_of_job hearlier system.station
    refine ⟨earlier, rfl, hstation, ?_⟩
    cases hprogress : (earlier.step system.station).1 with
    | moved next =>
      rw [hprogress, hjob] at hnext
      exact Or.inl (congrArg Progress.moved (Option.some.inj hnext).symm)
    | waiting next =>
      rw [hprogress, hjob] at hnext
      exact Or.inr (congrArg Progress.waiting (Option.some.inj hnext).symm)
    | finished outcome =>
      rw [hprogress] at hnext
      exact absurd hnext hnot

/-- An operation obtained the lock behind `front`, and has been under way ever since. -/
structure Since (start : System ι α τ) (place : ι) (operation : Operation)
    (front back : List (Choice ι α)) : Prop where
  queued : ((start.run front).actors place).job? = some operation.start
  free : (start.run front).station.locked = false
  underWay : ∀ middle, middle <+: back → ∃ job,
    ((start.run (front ++ .act place :: middle)).actors place).job? = some job ∧
      job.operation = operation ∧ job.isQueued = false

/-- The job in that place obtained the lock at some step of the schedule, and something holds of it
since. -/
def Persists (holds : Station (Logged τ) → Job → Station (Logged τ) → Prop) (start : System ι α τ)
    (place : ι) (job : Job) (schedule : List (Choice ι α)) : Prop :=
  ∃ front back, schedule = front ++ .act place :: back ∧
    start.Since place job.operation front back ∧
    holds (start.run front).station job (start.run schedule).station

section Persists

variable {holds : Station (Logged τ) → Job → Station (Logged τ) → Prop} {start : System ι α τ}
  {schedule : List (Choice ι α)} {choice : Choice ι α} {earlier : Job}

theorem Persists.concat (h : Persists holds start place earlier schedule)
    (hjob : ((start.run (schedule ++ [choice])).actors place).job? = some job)
    (hqueued : job.isQueued = false) (hoperation : earlier.operation = job.operation)
    (hkept : ∀ base, holds base earlier (start.run schedule).station →
      holds base job (start.run (schedule ++ [choice])).station) :
    Persists holds start place job (schedule ++ [choice]) := by
  obtain ⟨front, back, rfl, hsince, hholds⟩ := h
  rw [hoperation] at hsince
  have hwhole : front ++ .act place :: back ++ [choice] =
      front ++ .act place :: (back ++ [choice]) := by
    rw [List.append_assoc, List.cons_append]
  refine ⟨front, back ++ [choice], hwhole, ⟨hsince.queued, hsince.free, ?_⟩, hkept _ hholds⟩
  intro middle hmiddle
  rcases List.prefix_concat_iff.mp hmiddle with rfl | hbefore
  · exact ⟨job, hwhole ▸ hjob, rfl, hqueued⟩
  · exact hsince.underWay middle hbefore

/-- It begins with the step that obtains the lock. -/
theorem persists_of_obtains
    (hearlier : ((start.run schedule).actors place).job? = some earlier)
    (hwaits : earlier.isQueued = true) (hfree : (start.run schedule).station.locked = false)
    (hjob : ((start.run (schedule ++ [.act place])).actors place).job? = some job)
    (hqueued : job.isQueued = false) (hoperation : earlier.operation = job.operation)
    (hholds : holds (start.run schedule).station job
      (start.run (schedule ++ [.act place])).station) :
    Persists holds start place job (schedule ++ [.act place]) := by
  refine ⟨schedule, [], rfl, ⟨?_, hfree, ?_⟩, hholds⟩
  · rw [hearlier, ← hoperation, Job.start_operation hwaits]
  · intro middle hmiddle
    rw [List.prefix_nil.mp hmiddle]
    exact ⟨job, hjob, rfl, hqueued⟩

end Persists

/-- What is said from the step that obtains the lock, and is kept by every step of the job, holds as
long as the job is under way: what the lock protects is changed by no other step. -/
theorem persists_run (holds : Station (Logged τ) → Job → Station (Logged τ) → Prop)
    (hobtains : ∀ (operation : Operation) (station : Station (Logged τ)),
      operation.isSendable = true → station.locked = false →
      Course.Meets (holds station) (fun _ _ => True) (operation.start.step station))
    (hstep : ∀ base job station, holds base job station →
      Course.Meets (holds base) (fun _ _ => True) (job.step station))
    (hagrees : ∀ base job station next, holds base job station → station.Agrees next →
      holds base job next)
    (transport : τ) (board : Bulletin Signal) (schedule : List (Choice ι α))
    (hjob : (((start transport board).run schedule).actors place).job? = some job)
    (hqueued : job.isQueued = false) :
    Persists holds (start transport board) place job schedule := by
  induction schedule using List.reverseRecOn generalizing job with
  | nil => cases hjob
  | append_singleton schedule choice ih =>
    let system : System ι α τ := (start transport board).run schedule
    have hexplained : Explained _ system := (explained_start transport board).run schedule
    have hlast : (start transport board).run (schedule ++ [choice]) = system.step choice :=
      run_concat _ _ _
    have hafter : ((system.step choice).actors place).job? = some job := hlast ▸ hjob
    by_cases hown : choice = .act place
    -- Its own step goes on with the job, or is the one that obtains the lock.
    · subst hown
      obtain ⟨earlier, hearlier, hstation, hprogress⟩ := job_of_act hafter hqueued
      have hoperation := Job.operation_of_progress hprogress
      cases hwaits : earlier.isQueued with
      | false =>
        refine (ih hearlier hwaits).concat hjob hqueued hoperation ?_
        intro base hholds
        rw [hlast, step, hstation]
        exact (hstep base earlier system.station hholds).of_progress hprogress
      | true =>
        obtain ⟨hsendable, hfree⟩ := Job.obtains_of_progress hwaits hqueued hprogress
        refine persists_of_obtains hearlier hwaits hfree hjob hqueued hoperation ?_
        have hbegun := hobtains earlier.operation system.station hsendable hfree
        rw [Job.start_operation hwaits] at hbegun
        rw [hlast, step, hstation]
        exact hbegun.of_progress hprogress
    · obtain ⟨hbefore, hsame⟩ := step_of_others hexplained hafter hqueued hown
      refine (ih hbefore hqueued).concat hjob hqueued rfl ?_
      intro base hholds
      rw [hlast]
      exact hagrees base job _ _ hholds hsame

/-- A sweep that has obtained the lock has gathered what has come in since. -/
theorem gathers_since (transport : τ) (board : Bulletin Signal) (schedule : List (Choice ι α))
    {settings : Settings} {stage : Sweep.Stage} :
    let start : System ι α τ := start transport board
    (start.run schedule).actors place = .listener settings (.sweeping stage) →
    stage ≠ .queued →
    ∃ front back, schedule = front ++ .act place :: back ∧
      start.Since place (.poll settings) front back ∧
      Sweep.Gathers (start.run front).station.received stage (start.run schedule).station := by
  intro start hactor hstage
  have hjob : ((start.run schedule).actors place).job? = some (.poll settings stage) := by
    rw [hactor]
    rfl
  exact persists_run Job.Gathers (fun operation _ _ hfree => Job.gathers_start operation hfree)
    (fun _ _ _ hgathers => Job.step_gathers hgathers)
    (fun _ _ _ _ hgathers hagrees => hgathers.of_agrees hagrees)
    transport board schedule hjob (Job.isQueued_poll.mpr hstage)

end System

end CellModem
