import Mathlib.Data.List.Induction
import CellModem.Proofs.Lock
import CellModem.Proofs.Recovery

/-!
What happened while the lock was held once. The journal of a station falls into such episodes, one
for each time the lock was obtained, and tells of each what was read and passed on for which
purpose, and how the stream stood at its beginning, its end and any time between.
-/

namespace CellModem

namespace Event

/-- The bytes that came in for that purpose. -/
def bytesFor (purpose : Purpose) : Event → Octets
  | .received other bytes => if other = purpose then bytes else []
  | _ => []

/-- The signal that was published for that purpose. -/
def signalFor? (purpose : Purpose) : Event → Option Signal
  | .published other signal => if other = purpose then some signal else none
  | _ => none

/-- How the stream stands after an event. -/
def leaves (event : Event) (alignment : Alignment) : Alignment :=
  match event with
  | .aligned next => next
  | _ => alignment

def isLock : Event → Bool
  | .locked => true
  | _ => false

/-- A leftover was got rid of. -/
def isRealignment : Event → Bool
  | .aligned .aligned => true
  | _ => false

end Event

/-- How the stream stands after all that happened, latest first. -/
def alignmentAfter (past : List Event) : Alignment :=
  past.foldr Event.leaves .aligned

structure Episode where
  /-- How the stream stood when the lock was obtained. -/
  entered : Alignment
  /-- What happened since, in order. -/
  events : List Event := []

namespace Episode

def add (episode : Episode) (event : Event) : Episode :=
  { episode with events := episode.events ++ [event] }

/-- The bytes that were read for that purpose. -/
def taken (episode : Episode) (purpose : Purpose) : Octets :=
  episode.events.flatMap (Event.bytesFor purpose)

/-- The signals that were published from them. -/
def published (episode : Episode) (purpose : Purpose) : List Signal :=
  episode.events.filterMap (Event.signalFor? purpose)

def received (episode : Episode) : Octets :=
  episode.events.flatMap Event.receivedBytes

def signals (episode : Episode) : List Signal :=
  episode.events.filterMap Event.published?

/-- How the stream stands at the end. -/
def left (episode : Episode) : Alignment :=
  episode.events.foldl (fun alignment event => event.leaves alignment) episode.entered

def flushed (episode : Episode) : Bool :=
  episode.events.any Event.isFlushed

def realigned (episode : Episode) : Bool :=
  episode.events.any Event.isRealignment

/-- Whenever anybody went about business of their own, the stream was aligned. -/
def Careful (episode : Episode) : Prop :=
  ∀ before event later, episode.events = before ++ event :: later → event.isOwn = true →
    ({ episode with events := before } : Episode).left = .aligned

theorem careful_start (entered : Alignment) : Careful { entered } := by
  intro before event later hevents
  cases before <;> cases hevents

theorem Careful.add {episode : Episode} (h : episode.Careful) (event : Event)
    (hown : event.isOwn = true → episode.left = .aligned) : (episode.add event).Careful := by
  intro before other later hevents hother
  rcases List.eq_nil_or_concat later with rfl | ⟨later, last, rfl⟩
  · obtain ⟨rfl, hlast⟩ := List.append_inj' hevents rfl
    cases hlast
    exact hown hother
  · rw [List.concat_eq_append, ← List.cons_append, ← List.append_assoc] at hevents
    exact h before other later (List.append_inj' hevents rfl).1 hother

/-- The episodes of what happened, latest first. -/
def cut : List Event → List Episode
  | [] => []
  | event :: past =>
    if event.isLock then { entered := alignmentAfter past } :: cut past
    else
      match cut past with
      | [] => []
      | episode :: episodes => episode.add event :: episodes

/-- What happened without the lock being obtained once more belongs to the same episode. -/
theorem cut_append {past news : List Event} {event : Event} (hlock : event.isLock = true)
    (hnews : ∀ event ∈ news, event.isLock = false) :
    cut (news.reverse ++ event :: past) =
      { entered := alignmentAfter past, events := news } :: cut past := by
  induction news using List.reverseRecOn with
  | nil => simp [cut, hlock]
  | append_singleton news last ih =>
    have hlast : last.isLock = false := hnews last (by simp)
    have hearlier := ih fun event hevent => hnews event (List.mem_append_left _ hevent)
    simp [cut, hlast, hearlier, add]

end Episode

/-- What an episode comes to. -/
structure Tally where
  entered : Alignment
  /-- How the stream stands now. -/
  left : Alignment
  taken : Purpose → Octets
  published : Purpose → List Signal
  received : Octets
  signals : List Signal
  flushed : Bool
  realigned : Bool

namespace Tally

def read (tally : Tally) (purpose : Purpose) (bytes : Octets) : Tally :=
  { tally with
    taken := fun other => tally.taken other ++ if purpose = other then bytes else []
    received := tally.received ++ bytes }

def publish (tally : Tally) (purpose : Purpose) (signals : List Signal) : Tally :=
  { tally with
    published := fun other => tally.published other ++ if purpose = other then signals else []
    signals := tally.signals ++ signals }

def align (tally : Tally) (alignment : Alignment) : Tally :=
  { tally with left := alignment, realigned := tally.realigned || alignment == .aligned }

def flush (tally : Tally) : Tally :=
  { tally with flushed := true }

/-- How a read stands. -/
def noteRead {room : Nat} (tally : Tally) (purpose : Purpose) : Attempt (Chunk room) → Tally
  | .done chunk => tally.read purpose chunk.val
  | .failed | .waiting => tally

/-- How a flush stands. -/
def noteFlush (tally : Tally) : Attempt Unit → Tally
  | .done _ => tally.flush
  | .failed | .waiting => tally

/-- What one more event adds. -/
def add (tally : Tally) : Event → Tally
  | .received purpose bytes => tally.read purpose bytes
  | .published purpose signal => tally.publish purpose [signal]
  | .aligned alignment => tally.align alignment
  | .flushed => tally.flush
  | .locked | .unlocked | .probed _ | .readFailed _ | .offered _ | .sent _ | .writeFailed
  | .flushFailed | .listener _ => tally

theorem noteRead_of_nil {room : Nat} {chunk : Chunk room} (tally : Tally) (purpose : Purpose)
    (h : chunk.val = []) : tally.noteRead purpose (.done chunk) = tally := by
  simp [noteRead, read, h]

theorem publish_nil (tally : Tally) (purpose : Purpose) : tally.publish purpose [] = tally := by
  simp [publish]

theorem publish_publish (tally : Tally) (purpose : Purpose) (first second : List Signal) :
    (tally.publish purpose first).publish purpose second =
      tally.publish purpose (first ++ second) := by
  simp only [publish, List.append_assoc, Tally.mk.injEq, and_true, true_and]
  funext other
  by_cases hpurpose : purpose = other
  · simp [hpurpose]
  · simp [hpurpose]

end Tally

/-- Nothing has happened yet. -/
def Tally.start (entered : Alignment) : Tally where
  entered
  left := entered
  taken _ := []
  published _ := []
  received := []
  signals := []
  flushed := false
  realigned := false

namespace Episode

def tally (episode : Episode) : Tally where
  entered := episode.entered
  left := episode.left
  taken := episode.taken
  published := episode.published
  received := episode.received
  signals := episode.signals
  flushed := episode.flushed
  realigned := episode.realigned

theorem taken_add (episode : Episode) (event : Event) :
    (episode.add event).taken = fun purpose => episode.taken purpose ++ event.bytesFor purpose := by
  funext purpose
  simp [taken, add]

theorem published_add (episode : Episode) (event : Event) :
    (episode.add event).published =
      fun purpose => episode.published purpose ++ (event.signalFor? purpose).toList := by
  funext purpose
  cases hsignal : event.signalFor? purpose <;> simp [published, add, hsignal]

theorem received_add (episode : Episode) (event : Event) :
    (episode.add event).received = episode.received ++ event.receivedBytes := by
  simp [received, add]

theorem signals_add (episode : Episode) (event : Event) :
    (episode.add event).signals = episode.signals ++ event.published?.toList := by
  cases hsignal : event.published? <;> simp [signals, add, hsignal]

theorem left_add (episode : Episode) (event : Event) :
    (episode.add event).left = event.leaves episode.left := by
  simp [left, add]

theorem flushed_add (episode : Episode) (event : Event) :
    (episode.add event).flushed = (episode.flushed || event.isFlushed) := by
  simp [flushed, add]

theorem realigned_add (episode : Episode) (event : Event) :
    (episode.add event).realigned = (episode.realigned || event.isRealignment) := by
  simp [realigned, add]

theorem tally_add (episode : Episode) (event : Event) :
    (episode.add event).tally = episode.tally.add event := by
  have hentered : (episode.add event).entered = episode.entered := rfl
  simp only [tally, taken_add, published_add, received_add, signals_add, left_add, flushed_add,
    realigned_add, hentered]
  cases event with
  | published purpose signal =>
    have hsignal : ∀ other, (Event.signalFor? other (.published purpose signal)).toList =
        if purpose = other then [signal] else [] := by
      intro other
      by_cases hother : purpose = other <;> simp [Event.signalFor?, hother]
    simp [hsignal, Event.bytesFor, Event.receivedBytes, Event.published?, Event.leaves,
      Event.isFlushed, Event.isRealignment, Tally.add, Tally.publish]
  | aligned alignment =>
    cases alignment <;>
      simp [Event.bytesFor, Event.signalFor?, Event.receivedBytes, Event.published?, Event.leaves,
        Event.isFlushed, Event.isRealignment, Tally.add, Tally.align]
  | _ =>
    simp [Event.bytesFor, Event.signalFor?, Event.receivedBytes, Event.published?, Event.leaves,
      Event.isFlushed, Event.isRealignment, Tally.add, Tally.read, Tally.flush]

end Episode

namespace Station

variable {τ : Type}

/-- All bytes that were read, in order. -/
def received (station : Station τ) : Octets :=
  station.journal.reverse.flatMap Event.receivedBytes

theorem received_eq_happened (station : Station τ) :
    station.received = station.happened.reverse.flatMap Event.receivedBytes := by
  have hlistener : ∀ event : Event, event.isListener = true → event.receivedBytes = [] := by
    intro event hevent
    cases event <;> first | rfl | cases hevent
  unfold received happened
  induction station.journal with
  | nil => rfl
  | cons event journal ih =>
    cases hevent : event.isListener with
    | true => simp [hevent, hlistener event hevent, ih]
    | false => simp [hevent, ih]

/-- The episodes of a station, in order. -/
def episodes (station : Station τ) : List Episode :=
  (Episode.cut station.happened).reverse

/-- What happened since that past is one episode, and comes to the tally. -/
structure Amounts (past : List Event) (tally : Tally) (station : Station τ) : Prop where
  exists_episode : ∃ episode : Episode, episode.tally = tally ∧
    station.happened = episode.events.reverse ++ past ∧ episode.Careful ∧
    ∀ event ∈ episode.events, event.isLock = false
  alignment_eq : station.alignment = tally.left

theorem amounts_refl (station : Station τ) :
    Amounts station.happened (.start station.alignment) station :=
  ⟨⟨{ entered := station.alignment }, rfl, rfl, Episode.careful_start _, fun _ h => nomatch h⟩, rfl⟩

/-- What happened since that past, when the stream stood as `entered`, comes to a tally of that
kind. -/
def Recounts (past : List Event) (entered : Alignment) (claim : Tally → Prop)
    (station : Station τ) : Prop :=
  ∃ tally : Tally, tally.entered = entered ∧ Amounts past tally station ∧ claim tally

namespace Amounts

variable {past : List Event} {tally : Tally} {station next : Station τ}

theorem record (h : Amounts past tally station) (event : Event)
    (hhappened : next.happened = event :: station.happened)
    (halignment : next.alignment = (tally.add event).left)
    (hlock : event.isLock = false) (hown : event.isOwn = true → tally.left = .aligned) :
    Amounts past (tally.add event) next := by
  obtain ⟨episode, rfl, hepisode, hcareful, hfree⟩ := h.exists_episode
  refine ⟨⟨episode.add event, episode.tally_add event, ?_, hcareful.add event hown, ?_⟩, halignment⟩
  · rw [hhappened, hepisode]
    simp [Episode.add]
  · intro other hother
    rcases List.mem_append.mp hother with hold | hnew
    · exact hfree other hold
    · rw [List.mem_singleton.mp hnew]
      exact hlock

theorem same (h : Amounts past tally station) (hhappened : next.happened = station.happened)
    (halignment : next.alignment = station.alignment) : Amounts past tally next := by
  obtain ⟨episode, htally, hepisode, hcareful, hfree⟩ := h.exists_episode
  exact ⟨⟨episode, htally, hhappened.trans hepisode, hcareful, hfree⟩,
    halignment.trans h.alignment_eq⟩

theorem align (h : Amounts past tally station) (alignment : Alignment) :
    Amounts past (tally.align alignment) (station.align alignment) :=
  h.record (.aligned alignment) rfl rfl rfl Bool.noConfusion

theorem unlock (h : Amounts past tally station) : Amounts past tally station.unlock :=
  h.record .unlocked rfl h.alignment_eq rfl Bool.noConfusion

theorem publishAll (h : Amounts past tally station) (purpose : Purpose) (signals : List Signal) :
    Amounts past (tally.publish purpose signals) (station.publishAll purpose signals) := by
  induction signals generalizing tally station with
  | nil =>
    rw [Tally.publish_nil]
    exact h
  | cons signal signals ih =>
    have hnext : Amounts past (tally.publish purpose [signal])
        (station.publish purpose signal) :=
      h.record (.published purpose signal) rfl h.alignment_eq rfl Bool.noConfusion
    have hall := ih hnext
    rw [Tally.publish_publish] at hall
    exact hall

theorem noteRead {room : Nat} (h : Amounts past tally station) {purpose : Purpose}
    (attempt : Attempt (Chunk room)) (hown : purpose ≠ .realignment → tally.left = .aligned) :
    Amounts past (tally.noteRead purpose attempt) (station.noteRead purpose attempt) := by
  have hbusiness : (purpose != .realignment) = true → tally.left = .aligned := by
    intro hpurpose
    exact hown (by simpa using hpurpose)
  cases attempt with
  | done chunk =>
    exact h.record (.received purpose chunk.val) rfl h.alignment_eq rfl hbusiness
  | failed => exact h.record (.readFailed purpose) rfl h.alignment_eq rfl hbusiness
  | waiting => exact h

theorem noteWrite (h : Amounts past tally station) (request : Octets) (attempt : Attempt Nat) :
    Amounts past tally (station.noteWrite request attempt) := by
  cases attempt with
  | done count =>
    exact h.record (.sent (request.take count)) rfl h.alignment_eq rfl Bool.noConfusion
  | failed => exact h.record .writeFailed rfl h.alignment_eq rfl Bool.noConfusion
  | waiting => exact h

theorem noteFlush (h : Amounts past tally station) (attempt : Attempt Unit) :
    Amounts past (tally.noteFlush attempt) (station.noteFlush attempt) := by
  cases attempt with
  | done result => exact h.record .flushed rfl h.alignment_eq rfl Bool.noConfusion
  | failed => exact h.record .flushFailed rfl h.alignment_eq rfl Bool.noConfusion
  | waiting => exact h

section Calls

variable [Transport τ]

theorem probe (h : Amounts past tally station) : Amounts past tally station.probe.2 :=
  h.record (.probed station.probe.1) rfl h.alignment_eq rfl Bool.noConfusion

theorem read (h : Amounts past tally station) (purpose : Purpose) (room : Nat)
    (hown : purpose ≠ .realignment → tally.left = .aligned) :
    Amounts past (tally.noteRead purpose (station.read purpose room).1)
      (station.read purpose room).2 := by
  let next : Station τ :=
    { station with transport := (Transport.read station.now room station.transport).2 }
  have hnext : Amounts past tally next := h.same rfl rfl
  exact hnext.noteRead _ hown

theorem write (h : Amounts past tally station) (request : Octets) (hleft : tally.left = .aligned) :
    Amounts past tally (station.write request).2 := by
  let next : Station τ :=
    { station with transport := (Transport.write station.now request station.transport).2 }
  have hoffered : Amounts past tally (next.record (.offered request)) :=
    h.record (.offered request) rfl h.alignment_eq rfl fun _ => hleft
  exact hoffered.noteWrite request _

theorem awaitWrite (h : Amounts past tally station) (request : Octets) :
    Amounts past tally (station.awaitWrite request).2 := by
  let next : Station τ :=
    { station with transport := (Transport.awaitWrite station.now station.transport).2 }
  have hnext : Amounts past tally next := h.same rfl rfl
  exact hnext.noteWrite request _

theorem flush (h : Amounts past tally station) :
    Amounts past (tally.noteFlush station.flush.1) station.flush.2 := by
  let next : Station τ :=
    { station with transport := (Transport.flush station.now station.transport).2 }
  have hnext : Amounts past tally next := h.same rfl rfl
  exact hnext.noteFlush _

theorem awaitFlush (h : Amounts past tally station) :
    Amounts past (tally.noteFlush station.awaitFlush.1) station.awaitFlush.2 := by
  let next : Station τ :=
    { station with transport := (Transport.awaitFlush station.now station.transport).2 }
  have hnext : Amounts past tally next := h.same rfl rfl
  exact hnext.noteFlush _

end Calls

theorem received_eq (h : Amounts past tally station) :
    station.received = past.reverse.flatMap Event.receivedBytes ++ tally.received := by
  obtain ⟨episode, rfl, hhappened, -, -⟩ := h.exists_episode
  rw [received_eq_happened, hhappened, List.reverse_append, List.reverse_reverse,
    List.flatMap_append]
  rfl

/-- Since the lock was obtained, what happened is one more episode. -/
theorem cut_eq {before : List Event} (h : Amounts (.locked :: before) tally station)
    (hentered : tally.entered = alignmentAfter before) :
    ∃ episode : Episode, episode.tally = tally ∧ episode.Careful ∧
      station.happened = episode.events.reverse ++ .locked :: before ∧
      Episode.cut station.happened = episode :: Episode.cut before ∧
      alignmentAfter station.happened = tally.left := by
  obtain ⟨episode, rfl, hhappened, hcareful, hfree⟩ := h.exists_episode
  obtain ⟨entered, events⟩ := episode
  change entered = alignmentAfter before at hentered
  subst hentered
  refine ⟨_, rfl, hcareful, hhappened, ?_, ?_⟩
  · rw [hhappened]
    exact Episode.cut_append rfl hfree
  · rw [hhappened, alignmentAfter, List.foldr_append, List.foldr_reverse]
    rfl

end Amounts

theorem Recounts.passTo {past : List Event} {entered : Alignment} {claim : Tally → Prop}
    {station : Station τ} (h : Recounts past entered claim station) (moment : Millis) :
    Recounts past entered claim (station.passTo moment) := by
  obtain ⟨tally, hentered, hamounts, hclaim⟩ := h
  exact ⟨tally, hentered, hamounts.same rfl rfl, hclaim⟩

end Station

end CellModem
