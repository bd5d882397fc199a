import CellModem.Proofs.Serial

/-!
Any number of users, in any order of their steps, come to what the same operations come to one at a
time: in the order in which they obtained the lock, each from that moment on. The invariant explains
a system by the operations that are over and the one that holds the lock, if there is one; it is
carried from choice to choice of the schedule.
-/

namespace CellModem

namespace Note

variable {ι : Type}

/-- Whether a note tells that a request was not let through. -/
def isRefusal : Note ι → Bool
  | .ended _ operation _ => !operation.isSendable
  | .began _ _ _ | .accessed _ _ _ => false

/-- What a note on a refusal must be like. -/
def Refuses (note : Note ι) : Prop :=
  ∃ actor call, Limits.request < call.bytes.length ∧
    note = .ended actor (.exchange call) (.exchanged (.error .invalidArgument))

end Note

namespace System

section Explained

variable {ι α τ : Type} [Transport τ]

theorem notesOn_of_turn {place : ι} {job : Job} {station : Station (Logged τ)}
    (hsendable : job.operation.isSendable = true) (hturn : station.locked = !job.isQueued) :
    notesOn station place job =
      (if job.isQueued then [.began place job.operation station.now] else []) ++
        (accesses station (job.step station).2).map (.accessed place job.operation) ++
        (job.step station).1.result?.toList.map (.ended place job.operation) := by
  cases hqueued : job.isQueued <;> simp [notesOn, hsendable, hturn, hqueued]

theorem not_isRefusal_of_mem {place : ι} {job : Job} {station : Station (Logged τ)}
    (hsendable : job.operation.isSendable = true) {note : Note ι}
    (h : note ∈ notesOn station place job) : note.isRefusal = false := by
  cases note with
  | began actor operation moment => rfl
  | accessed actor operation access => rfl
  | ended actor operation outcome =>
    have hoperation : operation = job.operation := by
      simp only [notesOn, List.mem_append] at h
      rcases h with (hbegan | haccessed) | hended
      · split at hbegan <;> simp at hbegan
      · simp at haccessed
      · obtain ⟨result, -, hsame⟩ := List.mem_map.mp hended
        cases hsame
        rfl
    rw [hoperation, Note.isRefusal, hsendable]
    rfl

theorem filter_notesOn {place : ι} {job : Job} {station : Station (Logged τ)}
    (hsendable : job.operation.isSendable = true) :
    (notesOn station place job).filter (fun note => !note.isRefusal) =
      notesOn station place job := by
  apply List.filter_eq_self.mpr
  intro note hnote
  simp [not_isRefusal_of_mem hsendable hnote]

/-- What a system shows is what the blocks come to. -/
structure Mirrors (system : System ι α τ) (blocks : List (Block ι))
    (last : Station (Logged τ)) : Prop where
  agrees : last.Agrees system.station
  earlier : last.now ≤ system.station.now
  notes : system.notes.filter (fun note => !note.isRefusal) = blocks.flatMap Block.notes
  refusals : ∀ note ∈ system.notes, note.isRefusal = true → note.Refuses

theorem no_news : ∀ note ∈ ([] : List (Note ι)), note.isRefusal = true ∧ note.Refuses := by
  intro note hnote
  cases hnote

/-- A system is explained by blocks that are over, and by one that is under way while the lock is
taken. Everybody else at most waits for the lock. -/
inductive Explained (first : Station (Logged τ)) (system : System ι α τ) : Prop where
  | free {blocks : List (Block ι)} {last : Station (Logged τ)} (hserial : Serial first blocks last)
      (hended : ∀ block ∈ blocks, block.outcome?.isSome = true)
      (hmirrors : system.Mirrors blocks last) (hfree : system.station.locked = false)
      (hawaits : ∀ place, (system.actors place).Awaits) : Explained first system
  | held {blocks : List (Block ι)} {block : Block ι} {job : Job} {middle last : Station (Logged τ)}
      (hserial : Serial first blocks middle)
      (hended : ∀ block ∈ blocks, block.outcome?.isSome = true)
      (hblock : block.Runs middle (.moved job) last)
      (hmirrors : system.Mirrors (blocks ++ [block]) last)
      (hlocked : system.station.locked = true) (hqueued : job.isQueued = false)
      (hjob : (system.actors block.actor).job? = some job)
      (hawaits : ∀ place, place ≠ block.actor → (system.actors place).Awaits) :
      Explained first system

variable {first : Station (Logged τ)} {system next : System ι α τ}

omit [Transport τ] in
theorem Mirrors.of_agrees {blocks : List (Block ι)} {last : Station (Logged τ)}
    {news : List (Note ι)} (h : system.Mirrors blocks last)
    (hagrees : system.station.Agrees next.station) (hnow : system.station.now ≤ next.station.now)
    (hnotes : next.notes = system.notes ++ news)
    (hnews : ∀ note ∈ news, note.isRefusal = true ∧ note.Refuses) : next.Mirrors blocks last := by
  refine ⟨h.agrees.trans hagrees, Nat.le_trans h.earlier hnow, ?_, ?_⟩
  · have hdropped : news.filter (fun note => !note.isRefusal) = [] := by
      apply List.filter_eq_nil_iff.mpr
      intro note hnote
      simp [(hnews note hnote).1]
    rw [hnotes, List.filter_append, hdropped, List.append_nil]
    exact h.notes
  · intro note hnote hrefusal
    rw [hnotes] at hnote
    rcases List.mem_append.mp hnote with hold | hnew
    · exact h.refusals note hold hrefusal
    · exact (hnews note hnew).2

/-- Nothing that counts has happened: everybody is as far as before, or has taken up or put down
something without the lock. -/
theorem Explained.of_agrees {news : List (Note ι)} (h : Explained first system)
    (hagrees : system.station.Agrees next.station) (hnow : system.station.now ≤ next.station.now)
    (hnotes : next.notes = system.notes ++ news)
    (hnews : ∀ note ∈ news, note.isRefusal = true ∧ note.Refuses)
    (hactors : ∀ place, (next.actors place).job? = (system.actors place).job? ∨
      (system.actors place).Awaits ∧ (next.actors place).Awaits) : Explained first next := by
  have hawaits : ∀ place, (system.actors place).Awaits → (next.actors place).Awaits := by
    intro place hplace
    rcases hactors place with hsame | ⟨-, hnext⟩
    · intro job hjob
      exact hplace job (hsame ▸ hjob)
    · exact hnext
  cases h with
  | free hserial hended hmirrors hfree hall =>
    exact .free hserial hended (hmirrors.of_agrees hagrees hnow hnotes hnews)
      (hagrees.locked.symm.trans hfree) fun place => hawaits place (hall place)
  | held hserial hended hblock hmirrors hlocked hqueued hjob hothers =>
    refine .held hserial hended hblock (hmirrors.of_agrees hagrees hnow hnotes hnews)
      (hagrees.locked.symm.trans hlocked) hqueued ?_
      fun place hplace => hawaits place (hothers place hplace)
    rcases hactors _ with hsame | ⟨hwaits, -⟩
    · exact hsame.trans hjob
    · have hcontra := hwaits _ hjob
      rw [hqueued] at hcontra
      cases hcontra

/-- Whoever has the lock, or may obtain it, is about to take a step of a block. These are the
moments of the steps before; none yet, if the lock is still to be obtained. -/
structure Turn (first : Station (Logged τ)) (system : System ι α τ) (blocks : List (Block ι))
    (block : Block ι) (job : Job) (moments later : List Millis)
    (middle last : Station (Logged τ)) : Prop where
  serial : Serial first blocks middle
  ended : ∀ block ∈ blocks, block.outcome?.isSome = true
  sendable : block.operation.isSendable = true
  free : middle.locked = false
  onTime : middle.now ≤ block.start
  run : Course.follow Job.step moments block.operation.start middle = (.moved job, last)
  log : last.transport.log = middle.transport.log ++ block.accesses
  agrees : last.Agrees system.station
  earlier : last.now ≤ system.station.now
  moments : moments ++ [system.station.now] = block.start :: later
  notes : system.notes.filter (fun note => !note.isRefusal) ++
      (if job.isQueued then [.began block.actor block.operation system.station.now] else []) =
    blocks.flatMap Block.notes ++
      .began block.actor block.operation block.start ::
        block.accesses.map (.accessed block.actor block.operation)
  refusals : ∀ note ∈ system.notes, note.isRefusal = true → note.Refuses
  locked : system.station.locked = !job.isQueued
  holder : (system.actors block.actor).job? = some job
  others : ∀ other, other ≠ block.actor → (system.actors other).Awaits

/-- The lock is obtained, and a new block begins. -/
theorem turn_of_free {place : ι} {blocks : List (Block ι)} {job : Job}
    {last : Station (Logged τ)} (hserial : Serial first blocks last)
    (hended : ∀ block ∈ blocks, block.outcome?.isSome = true)
    (hmirrors : system.Mirrors blocks last) (hfree : system.station.locked = false)
    (hawaits : ∀ place, (system.actors place).Awaits)
    (hjob : (system.actors place).job? = some job) (hqueued : job.isQueued = true)
    (hsendable : job.operation.isSendable = true) :
    Turn first system blocks (.opening place job.operation system.station.now) job [] [] last
      last where
  serial := hserial
  ended := hended
  sendable := hsendable
  free := hmirrors.agrees.locked.trans hfree
  onTime := hmirrors.earlier
  run := by
    simp only [Block.opening, Job.start_operation hqueued]
    rfl
  log := (List.append_nil _).symm
  agrees := hmirrors.agrees
  earlier := hmirrors.earlier
  moments := rfl
  notes := by
    rw [hmirrors.notes, hqueued]
    rfl
  refusals := hmirrors.refusals
  locked := by
    rw [hfree, hqueued]
    rfl
  holder := hjob
  others other _ := hawaits other

/-- The holder of the lock goes on. -/
theorem turn_of_held {blocks : List (Block ι)} {block : Block ι} {job : Job}
    {middle last : Station (Logged τ)} (hserial : Serial first blocks middle)
    (hended : ∀ block ∈ blocks, block.outcome?.isSome = true)
    (hblock : block.Runs middle (.moved job) last)
    (hmirrors : system.Mirrors (blocks ++ [block]) last)
    (hlocked : system.station.locked = true) (hqueued : job.isQueued = false)
    (hjob : (system.actors block.actor).job? = some job)
    (hawaits : ∀ place, place ≠ block.actor → (system.actors place).Awaits) :
    Turn first system blocks block job (block.start :: block.later)
      (block.later ++ [system.station.now]) middle last where
  serial := hserial
  ended := hended
  sendable := hblock.sendable
  free := hblock.free
  onTime := hblock.onTime
  run := hblock.run
  log := hblock.log
  agrees := hmirrors.agrees
  earlier := hmirrors.earlier
  moments := rfl
  notes := by
    rw [hmirrors.notes, hqueued]
    simp [Block.notes, hblock.outcome, Progress.result?]
  refusals := hmirrors.refusals
  locked := by
    rw [hlocked, hqueued]
    rfl
  holder := hjob
  others := hawaits

theorem Turn.isSendable {blocks : List (Block ι)} {block : Block ι} {job : Job}
    {moments later : List Millis} {middle last : Station (Logged τ)}
    (h : Turn first system blocks block job moments later middle last) :
    job.operation.isSendable = true := by
  rw [Job.operation_of_follow h.run]
  exact h.sendable

end Explained

variable {ι α τ : Type} [DecidableEq ι] {first : Station (Logged τ)} {system : System ι α τ}

theorem actors_put_self (system : System ι α τ) (place : ι) (actor : Actor α) :
    (system.put place actor).actors place = actor :=
  if_pos rfl

theorem actors_put_ne (system : System ι α τ) {place other : ι} (actor : Actor α)
    (h : other ≠ place) : (system.put place actor).actors other = system.actors other :=
  if_neg h

/-- Only one user has changed. -/
theorem unchanged_put {place : ι} {actor : Actor α}
    (h : actor.job? = (system.actors place).job? ∨
      (system.actors place).Awaits ∧ actor.Awaits) (other : ι) :
    ((system.put place actor).actors other).job? = (system.actors other).job? ∨
      (system.actors other).Awaits ∧ ((system.put place actor).actors other).Awaits := by
  by_cases hother : other = place
  · rw [hother, actors_put_self]
    exact h
  · rw [actors_put_ne system actor hother]
    exact Or.inl rfl

variable [Transport τ]

theorem Explained.passTo (h : Explained first system) (moment : Millis) :
    Explained first (system.step (.pass moment)) :=
  h.of_agrees ⟨rfl, rfl, rfl, rfl, rfl, rfl, rfl⟩ (Nat.le_max_left _ _) (List.append_nil _).symm
    no_news fun _ => Or.inl rfl

theorem Explained.requestStop (h : Explained first system) :
    Explained first (system.step .requestStop) :=
  h.of_agrees ⟨rfl, rfl, rfl, rfl, rfl, rfl, rfl⟩ (Nat.le_refl _) (List.append_nil _).symm
    no_news fun _ => Or.inl rfl

/-- A new user at most waits for the lock, and so did the one who had the place before. -/
theorem Explained.seat {actor : Actor α} (h : Explained first system) (place : ι)
    (hactor : actor.Awaits) : Explained first (system.seat place actor) := by
  unfold System.seat
  by_cases hfree : (system.actors place).isFree
  · simp only [hfree, if_true]
    have hidle := Actor.awaits_of_idle (Actor.idle_of_isFree hfree)
    exact h.of_agrees (.refl _) (Nat.le_refl _) (List.append_nil _).symm no_news
      (unchanged_put (Or.inr ⟨hidle, hactor⟩))
  · simp only [hfree]
    exact h

theorem actors_act_self (system : System ι α τ) (place : ι) :
    (system.act place).actors place = ((system.actors place).step system.station).1 :=
  actors_put_self system place _

theorem actors_act_ne (system : System ι α τ) {place other : ι} (h : other ≠ place) :
    (system.act place).actors other = system.actors other :=
  actors_put_ne system _ h

/-- What a user without a job does. -/
theorem Explained.act_of_idle {place : ι} (h : Explained first system)
    (hidle : (system.actors place).job? = none) : Explained first (system.act place) := by
  obtain ⟨hagrees, hnow, hawaits⟩ := Actor.step_of_idle hidle system.station
  have hnotes : (system.act place).notes = system.notes ++ [] := by
    simp only [System.act, hidle, Option.map_none, Option.getD_none]
  exact h.of_agrees hagrees (Nat.le_of_eq hnow.symm) hnotes no_news
    (unchanged_put (Or.inr ⟨Actor.awaits_of_idle hidle, hawaits⟩))

section Job

variable {place : ι} {job : Job} (hjob : (system.actors place).job? = some job)

include hjob

theorem notes_act_of_job :
    (system.act place).notes = system.notes ++ notesOn system.station place job := by
  simp only [System.act, hjob, Option.map_some, Option.getD_some]

/-- A request that is too long is refused on the spot, and leaves the station alone. -/
theorem act_of_unsendable (hqueued : job.isQueued = true)
    (hsendable : job.operation.isSendable = false) :
    (system.act place).station = system.station ∧
      (system.act place).notes = system.notes ++
        [.ended place job.operation (.exchanged (.error .invalidArgument))] := by
  have hstep : job.step system.station =
      (.finished (.exchanged (.error .invalidArgument)), system.station) :=
    Job.step_unsendable hqueued hsendable
  have hstation := (Actor.step_of_job hjob system.station).1
  rw [hstep] at hstation
  refine ⟨hstation, ?_⟩
  rw [notes_act_of_job hjob]
  simp [notesOn, hstep, hsendable, accesses, Progress.result?]

theorem Explained.act_of_unsendable (h : Explained first system) (hqueued : job.isQueued = true)
    (hsendable : job.operation.isSendable = false) : Explained first (system.act place) := by
  obtain ⟨hstation, hnotes⟩ := System.act_of_unsendable hjob hqueued hsendable
  have hactor := (Actor.step_of_job hjob system.station).2
  rw [Job.step_unsendable hqueued hsendable] at hactor
  refine h.of_agrees (hstation ▸ .refl _) (Nat.le_of_eq (congrArg Station.now hstation).symm)
    hnotes ?_ (unchanged_put (Or.inr ⟨Actor.awaits_of_queued hjob hqueued, hactor⟩))
  · intro note hnote
    cases List.mem_singleton.mp hnote
    refine ⟨by simp [Note.isRefusal, hsendable], place, ?_⟩
    cases hoperation : job.operation with
    | exchange call =>
      rw [hoperation] at hsendable
      refine ⟨call, Call.request?_eq_none_iff.mp ?_, rfl⟩
      simpa [Operation.isSendable] using hsendable
    | poll settings =>
      rw [hoperation] at hsendable
      cases hsendable

/-- Whoever finds the lock taken has to wait, and nothing else happens. -/
theorem Explained.act_of_locked (h : Explained first system) (hqueued : job.isQueued = true)
    (hsendable : job.operation.isSendable = true) (hlocked : system.station.locked = true) :
    Explained first (system.act place) := by
  have hstep := Job.step_locked hqueued hsendable hlocked
  obtain ⟨hstation, hactor⟩ := Actor.step_of_job hjob system.station
  rw [hstep] at hstation hactor
  have hnotes : (system.act place).notes = system.notes ++ [] := by
    rw [notes_act_of_job hjob]
    simp [notesOn, hstep, hlocked, accesses, Progress.result?]
  have hstation' : (system.act place).station = system.station := hstation
  exact h.of_agrees (hstation' ▸ .refl _) (Nat.le_of_eq (congrArg Station.now hstation').symm)
    hnotes no_news (unchanged_put (Or.inl (hactor.trans hjob.symm)))

end Job

namespace Turn

variable {blocks : List (Block ι)} {block : Block ι} {job : Job} {moments later : List Millis}
  {middle last : Station (Logged τ)}

theorem station_act (h : Turn first system blocks block job moments later middle last) :
    (system.act block.actor).station = (job.step system.station).2 :=
  (Actor.step_of_job h.holder system.station).1

/-- The step is the next one of the block. -/
theorem runs (h : Turn first system blocks block job moments later middle last) :
    ∃ next, (block.stepped later system.station job).Runs middle
        (Job.settled (job.step system.station).1) next ∧
      next.Agrees (system.act block.actor).station ∧
      next.now = (system.act block.actor).station.now := by
  obtain ⟨next, hnext, hadded, hmatches, htime⟩ :=
    Job.follow_next h.run h.log h.agrees h.earlier
  rw [h.moments] at hnext
  rw [h.station_act]
  refine ⟨next, ?_, hmatches, htime⟩
  exact ⟨h.sendable, h.free, h.onTime, hnext, hadded, (Job.result?_settled _).symm⟩

theorem mirrors (h : Turn first system blocks block job moments later middle last)
    {next : Station (Logged τ)} (hagrees : next.Agrees (system.act block.actor).station)
    (hnow : next.now = (system.act block.actor).station.now) :
    (system.act block.actor).Mirrors (blocks ++ [block.stepped later system.station job])
      next where
  agrees := hagrees
  earlier := Nat.le_of_eq hnow
  notes := by
    rw [notes_act_of_job h.holder, List.filter_append, filter_notesOn h.isSendable,
      notesOn_of_turn h.isSendable h.locked, Job.operation_of_follow h.run, ← List.append_assoc,
      ← List.append_assoc, h.notes]
    simp [Block.stepped, Block.notes]
  refusals := by
    intro note hnote hrefusal
    rw [notes_act_of_job h.holder] at hnote
    rcases List.mem_append.mp hnote with hold | hnew
    · exact h.refusals note hold hrefusal
    · rw [not_isRefusal_of_mem h.isSendable hnew] at hrefusal
      cases hrefusal

theorem explained (h : Turn first system blocks block job moments later middle last) :
    Explained first (system.act block.actor) := by
  obtain ⟨next, hblock, hagrees, hnow⟩ := h.runs
  have hmirrors := h.mirrors hagrees hnow
  have hkeeps := Job.step_keeps h.isSendable h.locked
  have hstation := h.station_act
  have hactor := (Actor.step_of_job h.holder system.station).2
  rw [← actors_act_self] at hactor
  have hothers : ∀ other, other ≠ block.actor →
      ((system.act block.actor).actors other).Awaits := by
    intro other hother
    rw [actors_act_ne system hother]
    exact h.others other hother
  -- The lock is given back just when the block is over.
  cases hstep : job.step system.station with
  | mk progress after =>
    rw [hstep] at hstation hactor hkeeps hblock
    cases progress with
    | moved following =>
      exact .held h.serial h.ended hblock hmirrors (hstation ▸ hkeeps.2) hkeeps.1 hactor hothers
    | waiting following =>
      exact .held h.serial h.ended hblock hmirrors (hstation ▸ hkeeps.2) hkeeps.1 hactor hothers
    | finished outcome =>
      refine .free (h.serial.snoc hblock) ?_ hmirrors (hstation ▸ hkeeps) ?_
      · intro other hother
        rcases List.mem_append.mp hother with hold | hnew
        · exact h.ended other hold
        · rw [List.mem_singleton.mp hnew, hblock.outcome]
          rfl
      · intro other
        by_cases hother : other = block.actor
        · rw [hother]
          exact hactor
        · exact hothers other hother

end Turn

/-- Everything that a user does leaves the system explained. -/
theorem Explained.act (h : Explained first system) (place : ι) :
    Explained first (system.act place) := by
  cases hjob : (system.actors place).job? with
  | none => exact h.act_of_idle hjob
  | some job =>
    cases hqueued : job.isQueued with
    | true =>
      cases hsendable : job.operation.isSendable with
      | false => exact h.act_of_unsendable hjob hqueued hsendable
      | true =>
        cases hlocked : system.station.locked with
        | true => exact h.act_of_locked hjob hqueued hsendable hlocked
        | false =>
          cases h with
          | held hserial hended hblock hmirrors hheld => simp [hlocked] at hheld
          | free hserial hended hmirrors hfree hawaits =>
            have hturn :=
              turn_of_free hserial hended hmirrors hfree hawaits hjob hqueued hsendable
            exact hturn.explained
    | false =>
      cases h with
      | free hserial hended hmirrors hfree hawaits => simp [hawaits place job hjob] at hqueued
      | @held blocks block holding middle last hserial hended hblock hmirrors hlocked hheld howner
          hawaits =>
        have hplace : place = block.actor := by
          apply Decidable.byContradiction
          intro hother
          simp [hawaits place hother job hjob] at hqueued
        rw [hplace]
        exact (turn_of_held hserial hended hblock hmirrors hlocked hheld howner hawaits).explained

theorem Explained.step (h : Explained first system) (choice : Choice ι α) :
    Explained first (system.step choice) := by
  cases choice with
  | talk place program => exact h.seat place (Actor.awaits_talk program)
  | listen place settings => exact h.seat place (Actor.awaits_of_idle rfl)
  | act place => exact h.act place
  | pass moment => exact h.passTo moment
  | requestStop => exact h.requestStop

theorem Explained.run (h : Explained first system) (schedule : List (Choice ι α)) :
    Explained first (system.run schedule) := by
  induction schedule generalizing system with
  | nil => exact h
  | cons choice schedule ih => exact ih (h.step choice)

omit [DecidableEq ι] in
theorem explained_start (transport : τ) (board : Bulletin Signal) :
    Explained (start transport board : System ι α τ).station
      (start transport board : System ι α τ) :=
  .free (.nil _) (by simp) ⟨.refl _, Nat.le_refl _, rfl, by simp [start]⟩ rfl
    fun _ => Actor.awaits_of_idle rfl

/-- Whatever is too long has not got beyond waiting for the lock. -/
theorem Explained.isQueued_of_unsendable {place : ι} {job : Job} (h : Explained first system)
    (hjob : (system.actors place).job? = some job)
    (hsendable : job.operation.isSendable = false) : job.isQueued = true := by
  cases h with
  | free hserial hended hmirrors hfree hawaits => exact hawaits place job hjob
  | @held blocks block holding middle last hserial hended hblock hmirrors hlocked hqueued howner
      hawaits =>
    by_cases hplace : place = block.actor
    · rw [hplace, howner] at hjob
      cases hjob
      have hallowed := hblock.sendable
      rw [← Job.operation_of_follow hblock.run, hsendable] at hallowed
      cases hallowed
    · exact hawaits place hplace job hjob

/-- What a system shows is what the blocks come to one at a time. -/
structure Serialized (first : Station (Logged τ)) (system : System ι α τ)
    (blocks : List (Block ι)) (last : Station (Logged τ)) : Prop where
  serial : Serial first blocks last
  /-- The transport, the alignment of the stream, the board and the journal. -/
  agrees : last.Agrees system.station
  published : last.published = system.station.published
  log : system.station.transport.log = first.transport.log ++ blocks.flatMap Block.accesses
  /-- Accesses and results, in the order of the blocks. -/
  notes : system.notes.filter (fun note => !note.isRefusal) = blocks.flatMap Block.notes
  /-- Only the last one may be under way. -/
  ended : ∀ block ∈ blocks.dropLast, block.outcome?.isSome = true
  sends : ∀ block ∈ blocks, block.Sends
  refusals : ∀ note ∈ system.notes, note.isRefusal = true → note.Refuses
  /-- A request that is too long is refused on the spot. -/
  refuses : ∀ place call stage, (system.actors place).job? = some (.exchange call stage) →
    Limits.request < call.bytes.length →
    (system.act place).station = system.station ∧
      (system.act place).notes = system.notes ++
        [.ended place (.exchange call) (.exchanged (.error .invalidArgument))]

theorem serialized {blocks : List (Block ι)} {last : Station (Logged τ)}
    (h : Explained first system) (hserial : Serial first blocks last)
    (hmirrors : system.Mirrors blocks last)
    (hended : ∀ block ∈ blocks.dropLast, block.outcome?.isSome = true) :
    Serialized first system blocks last where
  serial := hserial
  agrees := hmirrors.agrees
  published := hmirrors.agrees.published_eq
  log := by
    rw [← hmirrors.agrees.transport]
    exact hserial.log_eq
  notes := hmirrors.notes
  ended := hended
  sends := hserial.sends
  refusals := hmirrors.refusals
  refuses := by
    intro place call stage hjob hlong
    have hsendable : (Job.exchange call stage).operation.isSendable = false :=
      Option.isSome_eq_false_iff.mpr (Option.isNone_iff_eq_none.mpr
        (Call.request?_eq_none_iff.mpr hlong))
    exact act_of_unsendable hjob (h.isQueued_of_unsendable hjob hsendable) hsendable

theorem Explained.serialized (h : Explained first system) :
    ∃ blocks last, Serialized first system blocks last := by
  cases h with
  | @free blocks last hserial hended hmirrors hfree hawaits =>
    refine ⟨blocks, last, System.serialized (.free hserial hended hmirrors hfree hawaits) hserial
      hmirrors ?_⟩
    intro block hblock
    exact hended block (List.dropLast_subset _ hblock)
  | @held blocks block job middle last hserial hended hblock hmirrors hlocked hqueued hjob
      hawaits =>
    refine ⟨blocks ++ [block], last, System.serialized
      (.held hserial hended hblock hmirrors hlocked hqueued hjob hawaits) (hserial.snoc hblock)
      hmirrors ?_⟩
    rw [List.dropLast_concat]
    exact hended

/-- Every interleaving is as good as its operations one at a time, in the order in which they
obtained the lock and each from that moment on. -/
theorem serializable (transport : τ) (board : Bulletin Signal) (schedule : List (Choice ι α)) :
    ∃ blocks last, Serialized (start transport board : System ι α τ).station
      ((start transport board : System ι α τ).run schedule) blocks last :=
  ((explained_start transport board).run schedule).serialized

end System

end CellModem
