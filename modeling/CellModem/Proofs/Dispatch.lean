import CellModem.Bench.Modem
import CellModem.Proofs.Collection

/-!
What a listener makes of the bytes that a sweep has brought in. The reports among the lines are
published and counted, every other line that is not blank counts as dropped, and so does a line that
was not finished. Both counts start again from zero behind their largest value, so over a whole run
the first one tells how many signals were published from sweeps, as far as it reaches.
-/

namespace CellModem

open Line Station

namespace Line

/-- A signal report that can be read. -/
def isReport (line : Octets) : Bool :=
  isNotice line.trim && (Signal.ofLine? line).isSome

/-- Neither blank nor such a report. -/
def isStray (line : Octets) : Bool :=
  !line.trim.isEmpty && !isReport line

/-- Every report that can be read announces one signal, and nothing else does. -/
theorem length_announced (lines : List Octets) :
    (announced lines).length = lines.countP isReport := by
  induction lines with
  | nil => rfl
  | cons line lines ih =>
    cases hnotice : isNotice line.trim with
    | false =>
      rw [announced_cons_of_not_isNotice lines hnotice, ih, List.countP_cons_of_neg]
      simp [isReport, hnotice]
    | true =>
      rw [announced_cons_of_isNotice lines hnotice, List.length_append, ih, List.countP_cons]
      cases hsignal : Signal.ofLine? line <;> simp [isReport, hnotice, hsignal, Nat.add_comm]

theorem idleKind_eq_blank_iff {line : Octets} :
    idleKind line = .blank ↔ line.trim.isEmpty = true := by
  rw [idleKind, kind_eq]
  cases line.trim.isEmpty with
  | true => simp
  | false =>
    cases isNotice line.trim with
    | true => simp [isEcho]
    | false => cases verdict? line.trim <;> simp [isEcho]

theorem isStray_of_blank {line : Octets} (h : idleKind line = .blank) : isStray line = false := by
  rw [isStray, idleKind_eq_blank_iff.mp h]
  rfl

theorem isStray_of_signal {line : Octets} {signal : Signal} (hkind : idleKind line = .notice)
    (hsignal : Signal.ofLine? line = some signal) : isStray line = false := by
  rw [isStray, isReport, idleKind_eq_notice_iff.mp hkind, hsignal]
  exact Bool.and_false _

/-- A report that cannot be read counts like any other line. -/
theorem isStray_of_other {line : Octets} (hblank : idleKind line ≠ .blank)
    (hsignal : idleKind line = .notice → Signal.ofLine? line = none) : isStray line = true := by
  have hsome : line.trim.isEmpty = false := by
    rw [← Bool.not_eq_true]
    exact fun hempty => hblank (idleKind_eq_blank_iff.mpr hempty)
  have hreport : isReport line = false := by
    unfold isReport
    cases hnotice : isNotice line.trim with
    | false => rfl
    | true =>
      rw [hsignal (idleKind_eq_notice_iff.mpr hnotice)]
      rfl
  rw [isStray, hsome, hreport]
  rfl

/-- What counts as dropped of these bytes: every stray line, and one that is not finished. -/
def strays (bytes : Octets) : Nat :=
  (split bytes).1.countP isStray + if (split bytes).2 = [] then 0 else 1

end Line

namespace Buffer

variable {buffer : Buffer} {span : buffer.Span}

theorem strays_of_nextLine? (hspan : buffer.nextLine? = some span) :
    strays buffer.pending =
      strays (buffer.skip span).pending + if isStray (buffer.line span) then 1 else 0 := by
  unfold strays
  rw [split_of_nextLine? hspan, List.countP_cons]
  exact Nat.add_right_comm _ _ _

theorem strays_of_nextLine?_eq_none (h : buffer.nextLine? = none) :
    strays buffer.pending = if buffer.pending.isEmpty then 0 else 1 := by
  unfold strays
  rw [split_of_nextLine?_eq_none h]
  simp

end Buffer

namespace Listener

theorem dispatch_dropped (buffer : Buffer) :
    (Dispatch.ofBuffer buffer).dropped = strays buffer.pending := by
  fun_induction Dispatch.ofBuffer buffer with
  | case1 buffer hnone => exact (Buffer.strays_of_nextLine?_eq_none hnone).symm
  | case2 buffer span hspan later hkind ih =>
    rw [Buffer.strays_of_nextLine? hspan, isStray_of_blank hkind, ih]
    rfl
  | case3 buffer span hspan later hkind signal hsignal ih =>
    rw [Buffer.strays_of_nextLine? hspan, isStray_of_signal hkind hsignal, ← ih]
    rfl
  | case4 buffer span hspan later hkind hsignal ih =>
    rw [Buffer.strays_of_nextLine? hspan,
      isStray_of_other (by simp [hkind]) fun _ => hsignal, ← ih]
    rfl
  | case5 buffer span hspan later hkind ih
  | case6 buffer span hspan later verdict hkind ih
  | case7 buffer span hspan later hkind ih =>
    rw [Buffer.strays_of_nextLine? hspan,
      isStray_of_other (by simp [hkind]) (by simp [hkind]), ← ih]
    rfl

variable {τ : Type}

/-- What a listener makes of these bytes. -/
structure Dispatches (bytes : Octets) (station next : Station τ) : Prop where
  published_eq : next.published = station.published ++ announced (split bytes).1
  board_eq : next.board = (announced (split bytes).1).foldl Bulletin.post station.board
  dispatched_eq : next.dispatched =
    station.dispatched + UInt32.ofNat ((split bytes).1.countP isReport)
  discarded_eq : next.discarded = station.discarded + UInt32.ofNat (strays bytes)

theorem dispatches_nothing (station : Station τ) (state : ListenerState) :
    Dispatches [] station (station.setListener state) where
  published_eq := (published_record rfl).trans (List.append_nil _).symm
  board_eq := rfl
  dispatched_eq := (UInt32.add_zero _).symm
  discarded_eq := (UInt32.add_zero _).symm

theorem dispatch_dispatches (buffer : Buffer) (station : Station τ) :
    Dispatches buffer.pending station ((dispatch buffer station).setListener .idle) := by
  have hlistening : (station.setListener .dispatching).published = station.published :=
    published_record rfl
  have hpublished := (station.setListener .dispatching).published_publishAll .sweep
    (Dispatch.ofBuffer buffer).signals
  rw [hlistening, dispatch_signals] at hpublished
  constructor
  · exact (published_record rfl).trans ((dispatch_signals buffer).symm ▸ hpublished)
  · simp only [dispatch, publishAll_eq, ← dispatch_signals]
    rfl
  · simp only [dispatch, publishAll_eq, dispatch_signals, length_announced]
    rfl
  · simp only [dispatch, publishAll_eq, dispatch_dropped]
    rfl

/-- The first bytes of a buffer that nobody has looked at yet are handed on as a whole. -/
theorem swept_dispatches (settings : Settings) {buffer : Buffer} (hscanned : buffer.scanned = 0)
    (station : Station τ) :
    Dispatches (buffer.storage.take buffer.filled) station
      (swept settings (.ok (some buffer)) station).2 := by
  have hpending : buffer.pending = buffer.storage.take buffer.filled := by
    rw [Buffer.pending, hscanned, List.drop_zero]
  by_cases hempty : buffer.filled = 0
  · simp only [swept, hempty, if_true, List.take_zero]
    exact dispatches_nothing station .idle
  · simp only [swept, hempty, if_false, ← hpending]
    exact dispatch_dispatches buffer station

end Listener

namespace Station

variable {τ : Type}

/-- The signals that were published for that purpose, in order. -/
def publishedFor (station : Station τ) (purpose : Purpose) : List Signal :=
  station.journal.reverse.filterMap (Event.signalFor? purpose)

/-- The count of dispatched signals is that of the signals published from sweeps. -/
def Counts (station : Station τ) : Prop :=
  station.dispatched = UInt32.ofNat (station.publishedFor .sweep).length

theorem publishedFor_eq_happened (station : Station τ) (purpose : Purpose) :
    station.publishedFor purpose =
      station.happened.reverse.filterMap (Event.signalFor? purpose) := by
  unfold publishedFor happened
  rw [← List.filter_reverse, List.filterMap_filter]
  congr
  funext event
  cases event <;> rfl

theorem publishedFor_publishAll (station : Station τ) (purpose : Purpose)
    (signals : List Signal) :
    (station.publishAll purpose signals).publishedFor purpose =
      station.publishedFor purpose ++ signals := by
  have hsignals : (signals.map (Event.published purpose)).filterMap (Event.signalFor? purpose) =
      signals := by
    rw [List.filterMap_map]
    have hsome : Event.signalFor? purpose ∘ Event.published purpose = some := by
      funext signal
      exact if_pos rfl
    rw [hsome, List.filterMap_some]
  rw [publishAll_eq, publishedFor, List.reverse_append, List.reverse_reverse,
    List.filterMap_append, hsignals]
  rfl

/-- Nothing was counted, and nothing published from a sweep. -/
structure Rests (first last : Station τ) : Prop where
  dispatched : last.dispatched = first.dispatched
  published : last.publishedFor .sweep = first.publishedFor .sweep

theorem Rests.counts {first last : Station τ} (h : first.Rests last) (hcounts : first.Counts) :
    last.Counts := by
  rw [Counts, h.dispatched, h.published]
  exact hcounts

theorem Agrees.rests {first last : Station τ} (h : first.Agrees last) : first.Rests last where
  dispatched := h.dispatched.symm
  published := by
    rw [publishedFor_eq_happened, publishedFor_eq_happened, h.happened]

/-- Nothing was published from a sweep since that past. -/
def Unswept (past : List Event) (station : Station τ) : Prop :=
  station.publishedFor .sweep = past.reverse.filterMap (Event.signalFor? .sweep)

theorem unswept_lock (station : Station τ) : Unswept (.locked :: station.happened) station := by
  rw [Unswept, publishedFor_eq_happened, List.reverse_cons, List.filterMap_append]
  exact (List.append_nil _).symm

theorem Recounts.unswept {past : List Event} {entered : Alignment} {claim : Tally → Prop}
    {station : Station τ} (h : Recounts past entered claim station)
    (hclaim : ∀ tally, claim tally → tally.published .sweep = []) : Unswept past station := by
  obtain ⟨tally, -, hamounts, htally⟩ := h
  obtain ⟨episode, rfl, hhappened, -, -⟩ := hamounts.exists_episode
  have hnothing : episode.events.filterMap (Event.signalFor? .sweep) = [] :=
    hclaim episode.tally htally
  rw [Unswept, publishedFor_eq_happened, hhappened, List.reverse_append, List.reverse_reverse,
    List.filterMap_append, hnothing, List.append_nil]

/-- Signals from a sweep are published and counted together. -/
theorem Counts.publish {station : Station τ} (h : station.Counts) (signals : List Signal)
    (dropped : Nat) :
    ((station.publishAll .sweep signals).count signals.length dropped).Counts := by
  have hpublished :
      ((station.publishAll .sweep signals).count signals.length dropped).publishedFor .sweep =
        station.publishedFor .sweep ++ signals :=
    station.publishedFor_publishAll .sweep signals
  have hdispatched :
      ((station.publishAll .sweep signals).count signals.length dropped).dispatched =
        station.dispatched + UInt32.ofNat signals.length := by
    rw [publishAll_eq]
    rfl
  rw [Counts, hdispatched, hpublished, List.length_append, UInt32.ofNat_add, h]

theorem dispatched_noteRead {room : Nat} (station : Station τ) (purpose : Purpose)
    (attempt : Attempt (Chunk room)) :
    (station.noteRead purpose attempt).dispatched = station.dispatched := by
  cases attempt <;> rfl

theorem dispatched_noteWrite (station : Station τ) (request : Octets) (attempt : Attempt Nat) :
    (station.noteWrite request attempt).dispatched = station.dispatched := by
  cases attempt <;> rfl

theorem dispatched_noteFlush (station : Station τ) (attempt : Attempt Unit) :
    (station.noteFlush attempt).dispatched = station.dispatched := by
  cases attempt <;> rfl

/-- No operation on the transport counts anything. -/
theorem active_dispatched [Transport τ] :
    Active fun first last : Station τ => last.dispatched = first.dispatched where
  refl _ := rfl
  trans hfirst hlast := hlast.trans hfirst
  lock _ := rfl
  unlock _ := rfl
  align _ _ := rfl
  publishAll _ _ _ := by rw [publishAll_eq]
  probe _ := rfl
  read _ purpose _ := dispatched_noteRead _ purpose _
  write _ request := dispatched_noteWrite _ request _
  awaitWrite _ request := dispatched_noteWrite _ request _
  flush _ := dispatched_noteFlush _ _
  awaitFlush _ := dispatched_noteFlush _ _

end Station

section Accounts

variable {τ : Type} {past : List Event} {entered : Alignment} {station : Station τ}

theorem Exchange.Tells.unswept {call : Call} {stage : Exchange.Stage}
    (h : Exchange.Tells past entered call stage station) : Unswept past station :=
  Recounts.unswept h fun _ hshows => (Exchange.passes_of_shows hshows).sweep.2

theorem Sweep.Tells.unswept {stage : Sweep.Stage} (h : Sweep.Tells past entered stage station) :
    Unswept past station :=
  Recounts.unswept h fun _ hshows => (Sweep.withholds_of_shows hshows).published_eq

variable [Transport τ] (hpast : Unswept past station)

include hpast

/-- A step of an exchange that gives an account publishes nothing from a sweep. -/
theorem Exchange.step_rests {call : Call} {stage : Stage}
    (htells : Course.Meets (Tells past entered call) (Told past entered call)
      (step call stage station)) : station.Rests (step call stage station).2 where
  dispatched := step_relates active_dispatched call stage station
  published := by
    have hnext : Unswept past (step call stage station).2 := htells.station
      (fun _ _ hnext => Tells.unswept hnext)
      fun _ _ hnext => Recounts.unswept hnext fun _ hcloses => hcloses.toPasses.sweep.2
    exact hnext.trans hpast.symm

/-- Nor does a step of a sweep, before the listener has its result. -/
theorem Sweep.step_rests {timeout : Millis} {stage : Stage}
    (htells : Course.Meets (Tells past entered) (Told past entered)
      (step timeout stage station)) : station.Rests (step timeout stage station).2 where
  dispatched := step_relates active_dispatched.toPassive timeout stage station
  published := by
    have hnext : Unswept past (step timeout stage station).2 := htells.station
      (fun _ _ hnext => Tells.unswept hnext)
      fun _ _ hnext => Recounts.unswept hnext fun _ hcloses => hcloses.published_eq
    exact hnext.trans hpast.symm

end Accounts

/-- What is handed on after a sweep is counted. -/
theorem Listener.swept_counts {τ : Type} (settings : Settings) (result : Sweep.Result)
    {station : Station τ} (h : station.Counts) : (swept settings result station).2.Counts := by
  rcases swept_cases settings result station with hpause | ⟨buffer, -, hdispatch⟩
  · rw [hpause]
    exact (Agrees.setListener station .idle).rests.counts h
  · rw [hdispatch]
    have hlistening := (Agrees.setListener station .dispatching).rests.counts h
    exact (Agrees.setListener _ .idle).rests.counts (hlistening.publish _ _)

namespace Job

variable {τ : Type} [Transport τ] {past : List Event} {entered : Alignment}
  {operation : Operation} {job : Job} {station : Station τ}

theorem counts_exchange {call : Call} {stage : Exchange.Stage}
    (h : (Exchange.step call stage station).2.Counts) :
    (step (.exchange call stage) station).2.Counts := by
  have hmeets : Course.Meets (fun _ : Job => Station.Counts) (fun _ => Station.Counts)
      (step (.exchange call stage) station) :=
    meets_of_exchange (Course.meets_of_station Station.Counts h)
  exact hmeets.station (fun _ _ hnext => hnext) fun _ _ hnext => hnext

theorem counts_poll {settings : Settings} {stage : Sweep.Stage}
    (h : (Sweep.step settings.responseTimeout stage station).2.Counts) :
    (step (.poll settings stage) station).2.Counts := by
  have hmeets : Course.Meets (fun _ : Job => Station.Counts) (fun _ => Station.Counts)
      (step (.poll settings stage) station) := by
    apply meets_of_poll
    apply (Course.meets_of_station Station.Counts h).imp
    · exact fun _ _ hnext => hnext
    · exact fun result next hnext => Listener.swept_counts settings result hnext
  exact hmeets.station (fun _ _ hnext => hnext) fun _ _ hnext => hnext

/-- A job that is under way keeps the count. -/
theorem step_counts (h : Tells past entered operation job station) (hcounts : station.Counts) :
    (job.step station).2.Counts := by
  obtain ⟨-, htells⟩ := h
  cases job with
  | exchange call stage =>
    have hrests := Exchange.step_rests (Exchange.Tells.unswept htells)
      (Exchange.step_tells stage station htells)
    exact counts_exchange (hrests.counts hcounts)
  | poll settings stage =>
    have hrests := Sweep.step_rests (Sweep.Tells.unswept htells)
      (Sweep.step_tells settings.responseTimeout stage station htells)
    exact counts_poll (hrests.counts hcounts)

/-- And so does one that obtains the lock. -/
theorem start_counts (hsendable : operation.isSendable = true) (hfree : station.locked = false)
    (hcounts : station.Counts) : (operation.start.step station).2.Counts := by
  cases operation with
  | exchange call =>
    have hrests := Exchange.step_rests (unswept_lock station)
      (Exchange.tells_queued hsendable hfree)
    exact counts_exchange (hrests.counts hcounts)
  | poll settings =>
    have hrests : station.Rests (Sweep.step settings.responseTimeout .queued station).2 :=
      Sweep.step_rests (unswept_lock station) (Sweep.tells_queued hfree)
    exact counts_poll (hrests.counts hcounts)

end Job

namespace System

variable {ι α τ : Type} [Transport τ] {first : Station (Logged τ)} {system : System ι α τ}

/-- A job that is under way can give an account of its time with the lock. -/
theorem Explained.tells {place : ι} {job : Job} (h : Explained first system)
    (hjob : (system.actors place).job? = some job) (hqueued : job.isQueued = false) :
    ∃ past entered, Job.Tells past entered job.operation job system.station := by
  obtain ⟨-, -, block, middle, last, hblock, hagrees⟩ := h.exists_block hjob hqueued
  obtain ⟨-, tally, hentered, hamounts, hshows⟩ := hblock.tells
  exact ⟨_, _, rfl, tally, hentered,
    hamounts.same hagrees.happened.symm hagrees.alignment.symm, hshows⟩

variable [DecidableEq ι]

theorem Explained.act_counts (h : Explained first system) (hcounts : system.station.Counts)
    (place : ι) : (system.act place).station.Counts := by
  cases hjob : (system.actors place).job? with
  | none => exact (Actor.step_of_idle hjob system.station).1.rests.counts hcounts
  | some job =>
    have hstation : (system.act place).station = (job.step system.station).2 :=
      (Actor.step_of_job hjob system.station).1
    cases hqueued : job.isQueued with
    | false =>
      obtain ⟨past, entered, htells⟩ := h.tells hjob hqueued
      rw [hstation]
      exact Job.step_counts htells hcounts
    | true =>
      cases hlocked : system.station.locked with
      | true =>
        have hwaits := Actor.awaits_of_queued hjob hqueued
        exact (act_of_awaits hlocked hwaits).rests.counts hcounts
      | false =>
        cases hsendable : job.operation.isSendable with
        | false =>
          rw [(System.act_of_unsendable hjob hqueued hsendable).1]
          exact hcounts
        | true =>
          rw [hstation, ← Job.start_operation hqueued]
          exact Job.start_counts hsendable hlocked hcounts

theorem Explained.step_counts (h : Explained first system) (hcounts : system.station.Counts)
    (choice : Choice ι α) : (system.step choice).station.Counts := by
  cases choice with
  | talk place program =>
    rw [System.step, station_seat]
    exact hcounts
  | listen place settings =>
    rw [System.step, station_seat]
    exact hcounts
  | act place => exact h.act_counts hcounts place
  | pass moment => exact hcounts
  | requestStop => exact hcounts

theorem Explained.run_counts (h : Explained first system) (hcounts : system.station.Counts)
    (schedule : List (Choice ι α)) : (system.run schedule).station.Counts := by
  induction schedule generalizing system with
  | nil => exact hcounts
  | cons choice schedule ih => exact ih (h.step choice) (h.step_counts hcounts choice)

/-- Whatever the transport and the users do, a sweep that ends with a buffer has in it just what was
received since it obtained the lock, and leaves the stream within a line unless these bytes end with
one, or there are none. What the listener does next is to publish the reports among their lines, in
order, and to count these and what it drops. So the first of its counts is that of the signals
published from sweeps, as far as it reaches. -/
theorem dispatches_what_sweeps_gather (transport : τ) (board : Bulletin Signal)
    (schedule : List (Choice ι α)) :
    let start : System ι α τ := start transport board
    let system := start.run schedule
    (∀ place settings stage buffer after,
      system.actors place = .listener settings (.sweeping stage) →
      Sweep.step settings.responseTimeout stage system.station =
        (.finished (.ok (some buffer)), after) →
      let bytes := buffer.storage.take buffer.filled
      (∃ front back, schedule = front ++ .act place :: back ∧
        start.Since place (.poll settings) front back ∧
        after.received = (start.run front).station.received ++ bytes) ∧
      after.alignment =
        (if bytes = [] ∨ bytes.getLast? = some lineFeed then .aligned else .midLine) ∧
      Listener.Dispatches bytes after (system.step (.act place)).station) ∧
    system.station.dispatched =
      UInt32.ofNat (system.station.publishedFor .sweep).length := by
  intro start system
  refine ⟨?_, (explained_start transport board).run_counts rfl schedule⟩
  intro place settings stage buffer after hactor hstep bytes
  have hstage : stage ≠ .queued := Sweep.stage_ne_queued hstep
  obtain ⟨front, back, hschedule, hsince, hgathers⟩ :=
    gathers_since transport board schedule hactor hstage
  have hgathered := Sweep.step_gathers settings.responseTimeout stage system.station hgathers
  rw [hstep] at hgathered
  obtain ⟨hscanned, hreceived, haligned⟩ := hgathered
  have hpending : buffer.pending = bytes := by
    rw [Buffer.pending, hscanned, List.drop_zero]
  rw [hpending] at hreceived haligned
  refine ⟨⟨front, back, hschedule, hsince, hreceived⟩, haligned, ?_⟩
  have hnext : (system.step (.act place)).station =
      (Listener.swept settings (.ok (some buffer)) after).2 := by
    have hstation : (system.step (.act place)).station =
        ((system.actors place).step system.station).2 := rfl
    rw [hstation, hactor]
    simp only [Actor.step, Listener.step, hstep]
  rw [hnext]
  exact Listener.swept_dispatches settings hscanned after

/-- What a modem has sent unasked: a line of another kind, a blank one, a report that cannot be
read, one that can, and the beginning of one more line. -/
def chatter : Octets :=
  Octets.ofText "+CEREG: 5\r\n\r\n%CESQ: x\r\n%CESQ: 40,1\r\n%CE"

/-- There the stream ends. -/
def chattyModem : Bench.Modem where
  wire := [{ content := .data chatter, arrival := 0 }, { content := .ended, arrival := 0 }]

/-- A listener that leaves signal reports as they are. -/
def listenOnly : Settings where
  subscribes := false

/-- It is seated, begins a look, obtains the lock and reads. -/
def chattySchedule : List (Choice Unit Unit) :=
  [.listen () listenOnly, .act (), .act (), .act (), .act ()]

def chattySystem : System Unit Unit Bench.Modem :=
  (start chattyModem {}).run chattySchedule

def chatterBuffer : Buffer :=
  (Buffer.empty Limits.response).fill ⟨chatter, by decide +kernel⟩

/-- How far its sweep has come. -/
def chatterStage : Sweep.Stage :=
  .completing chatterBuffer (.start 0 listenOnly.responseTimeout)

set_option maxRecDepth 8000 in
/-- The end of the stream cuts the last line; one report is published, and three lines count as
dropped. -/
theorem dispatches_chatter :
    let outcome := Sweep.step listenOnly.responseTimeout chatterStage chattySystem.station
    let next := (chattySystem.step (.act ())).station
    chattySystem.actors () = .listener listenOnly (.sweeping chatterStage) ∧
      outcome.1 = .finished (.ok (some chatterBuffer)) ∧ outcome.2.alignment = .midLine ∧
      next.published = outcome.2.published ++ [⟨40⟩] ∧
      next.dispatched = outcome.2.dispatched + 1 ∧ next.discarded = outcome.2.discarded + 3 := by
  have hactor : chattySystem.actors () = .listener listenOnly (.sweeping chatterStage) := by cbv
  have hprogress :
      (Sweep.step listenOnly.responseTimeout chatterStage chattySystem.station).1 =
        .finished (.ok (some chatterBuffer)) := by cbv
  obtain ⟨-, halignment, hdispatches⟩ :=
    (dispatches_what_sweeps_gather chattyModem {} chattySchedule).1 () listenOnly chatterStage
      chatterBuffer _ hactor (Prod.ext hprogress rfl)
  have hbytes : chatterBuffer.storage.take chatterBuffer.filled = chatter := by cbv
  have hcut : ¬ (chatter = [] ∨ chatter.getLast? = some lineFeed) := by decide +kernel
  have hannounced : announced (split chatter).1 = [⟨40⟩] := by cbv
  have hreports : (split chatter).1.countP isReport = 1 := by cbv
  have hstrays : strays chatter = 3 := by cbv
  rw [hbytes] at halignment hdispatches
  obtain ⟨hpublished, -, hdispatched, hdiscarded⟩ := hdispatches
  rw [hannounced] at hpublished
  rw [hreports] at hdispatched
  rw [hstrays] at hdiscarded
  rw [if_neg hcut] at halignment
  exact ⟨hactor, hprogress, halignment, hpublished, hdispatched, hdiscarded⟩

end System

end CellModem
