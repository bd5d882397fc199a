import CellModem.Proofs.Course

/-!
What the journal of a station tells about the last request that was handed to the transport: what
happened since, and which bytes came in. Together with the lock and the alignment of the stream this
is all that proofs about exchanges need to know of a station, so each operation is described by what
it makes of it.
-/

namespace CellModem

def Attempt.isDone {α : Type} : Attempt α → Bool
  | .done _ => true
  | .failed | .waiting => false

namespace Event

def isOffer : Event → Bool
  | .offered _ => true
  | _ => false

def isFlushed : Event → Bool
  | .flushed => true
  | _ => false

def receivedBytes : Event → Octets
  | .received _ bytes => bytes
  | _ => []

theorem offered?_eq_none {event : Event} (h : event.isOffer = false) : event.offered? = none := by
  cases event <;> first | rfl | cases h

end Event

namespace Station

variable {τ : Type}

/-- What happened since the last request was handed to the transport, latest first. -/
def sinceOffer (station : Station τ) : List Event :=
  station.journal.takeWhile fun event => !event.isOffer

/-- The bytes that came in since then. -/
def reply (station : Station τ) : Octets :=
  station.sinceOffer.reverse.flatMap Event.receivedBytes

theorem requests_record {station : Station τ} {event : Event} (h : event.offered? = none) :
    (station.record event).requests = station.requests := by
  simp [requests, record, h]

theorem requests_record_offered (station : Station τ) (request : Octets) :
    (station.record (.offered request)).requests = station.requests ++ [request] := by
  simp [requests, record, Event.offered?]

theorem sinceOffer_record {station : Station τ} {event : Event} (h : event.isOffer = false) :
    (station.record event).sinceOffer = event :: station.sinceOffer := by
  simp [sinceOffer, record, h]

theorem sinceOffer_record_offered (station : Station τ) (request : Octets) :
    (station.record (.offered request)).sinceOffer = [] := by
  simp [sinceOffer, record, Event.isOffer]

theorem reply_record {station : Station τ} {event : Event} (h : event.isOffer = false) :
    (station.record event).reply = station.reply ++ event.receivedBytes := by
  simp [reply, sinceOffer_record h]

/-- Publishing changes the board and the journal, and nothing else. -/
theorem publishAll_eq (station : Station τ) (purpose : Purpose) (signals : List Signal) :
    station.publishAll purpose signals =
      { station with
        board := signals.foldl Bulletin.post station.board
        journal := (signals.map (Event.published purpose)).reverse ++ station.journal } := by
  induction signals generalizing station with
  | nil => rfl
  | cons signal signals ih =>
    rw [publishAll, List.foldl_cons, ← publishAll, ih]
    simp [publish, record]

theorem requests_publishAll (station : Station τ) (purpose : Purpose) (signals : List Signal) :
    (station.publishAll purpose signals).requests = station.requests := by
  induction signals generalizing station with
  | nil => rfl
  | cons signal signals ih =>
    rw [publishAll, List.foldl_cons, ← publishAll, ih]
    exact requests_record rfl

end Station

/-- How the last request stands. -/
structure Standing where
  locked : Bool
  alignment : Alignment
  requests : List Octets
  /-- Whether the transport was flushed since. -/
  flushed : Bool
  reply : Octets

namespace Station

variable {τ : Type}

def standing (station : Station τ) : Standing where
  locked := station.locked
  alignment := station.alignment
  requests := station.requests
  flushed := station.sinceOffer.any Event.isFlushed
  reply := station.reply

theorem standing_record {station : Station τ} {event : Event} (h : event.isOffer = false) :
    (station.record event).standing =
      { station.standing with
        flushed := event.isFlushed || station.standing.flushed
        reply := station.standing.reply ++ event.receivedBytes } := by
  simp only [standing, requests_record (Event.offered?_eq_none h), sinceOffer_record h,
    reply_record h, List.any_cons]
  rfl

/-- Most events leave the standing as it is. -/
theorem standing_record_of_quiet {station : Station τ} {event : Event}
    (hoffer : event.isOffer = false) (hflushed : event.isFlushed = false)
    (hbytes : event.receivedBytes = []) : (station.record event).standing = station.standing := by
  rw [standing_record hoffer, hflushed, hbytes, List.append_nil, Bool.false_or]

theorem standing_lock (station : Station τ) :
    station.lock.standing = { station.standing with locked := true } :=
  standing_record_of_quiet rfl rfl rfl

theorem standing_unlock (station : Station τ) :
    station.unlock.standing = { station.standing with locked := false } :=
  standing_record_of_quiet rfl rfl rfl

theorem standing_align (station : Station τ) (alignment : Alignment) :
    (station.align alignment).standing = { station.standing with alignment } :=
  standing_record_of_quiet rfl rfl rfl

theorem standing_publishAll (station : Station τ) (purpose : Purpose) (signals : List Signal) :
    (station.publishAll purpose signals).standing = station.standing := by
  induction signals generalizing station with
  | nil => rfl
  | cons signal signals ih =>
    rw [publishAll, List.foldl_cons, ← publishAll, ih]
    exact standing_record_of_quiet rfl rfl rfl

theorem noteWrite_transport (station : Station τ) (request : Octets) (attempt : Attempt Nat) :
    (station.noteWrite request attempt).transport = station.transport ∧
      (station.noteWrite request attempt).now = station.now := by
  cases attempt <;> exact ⟨rfl, rfl⟩

theorem standing_noteWrite (station : Station τ) (request : Octets) (attempt : Attempt Nat) :
    (station.noteWrite request attempt).standing = station.standing := by
  cases attempt with
  | done taken => exact standing_record_of_quiet rfl rfl rfl
  | failed => exact standing_record_of_quiet rfl rfl rfl
  | waiting => rfl

theorem noteFlush_transport (station : Station τ) (attempt : Attempt Unit) :
    (station.noteFlush attempt).transport = station.transport ∧
      (station.noteFlush attempt).now = station.now := by
  cases attempt <;> exact ⟨rfl, rfl⟩

theorem standing_noteFlush (station : Station τ) (attempt : Attempt Unit) :
    (station.noteFlush attempt).standing =
      { station.standing with flushed := attempt.isDone || station.standing.flushed } := by
  cases attempt with
  | done result =>
    refine (standing_record rfl).trans ?_
    simp only [Event.receivedBytes, List.append_nil]
    rfl
  | failed => exact standing_record_of_quiet rfl rfl rfl
  | waiting => rfl

theorem noteRead_transport {room : Nat} (station : Station τ) (purpose : Purpose)
    (attempt : Attempt (Chunk room)) :
    (station.noteRead purpose attempt).transport = station.transport ∧
      (station.noteRead purpose attempt).now = station.now := by
  cases attempt <;> exact ⟨rfl, rfl⟩

theorem standing_noteRead {room : Nat} (station : Station τ) (purpose : Purpose)
    (attempt : Attempt (Chunk room)) :
    (station.noteRead purpose attempt).standing =
      match attempt with
      | .done chunk => { station.standing with reply := station.standing.reply ++ chunk.val }
      | .failed | .waiting => station.standing := by
  cases attempt with
  | done chunk => exact standing_record rfl
  | failed => exact standing_record_of_quiet rfl rfl rfl
  | waiting => rfl

section Calls

variable [Transport τ]

theorem standing_read (station : Station τ) (purpose : Purpose) (room : Nat) :
    (station.read purpose room).2.standing =
      match (station.read purpose room).1 with
      | .done chunk => { station.standing with reply := station.standing.reply ++ chunk.val }
      | .failed | .waiting => station.standing :=
  standing_noteRead _ purpose _

theorem standing_write (station : Station τ) (request : Octets) :
    (station.write request).2.standing =
      ⟨station.locked, station.alignment, station.requests ++ [request], false, []⟩ := by
  refine (standing_noteWrite _ request _).trans ?_
  simp only [standing, requests_record_offered, sinceOffer_record_offered, reply]
  rfl

theorem standing_awaitWrite (station : Station τ) (request : Octets) :
    (station.awaitWrite request).2.standing = station.standing :=
  standing_noteWrite _ request _

theorem standing_flush (station : Station τ) :
    station.flush.2.standing =
      { station.standing with flushed := station.flush.1.isDone || station.standing.flushed } :=
  standing_noteFlush _ _

theorem standing_awaitFlush (station : Station τ) :
    station.awaitFlush.2.standing =
      { station.standing with
        flushed := station.awaitFlush.1.isDone || station.standing.flushed } :=
  standing_noteFlush _ _

/-! A call is one on the transport, at the present moment. -/

theorem transport_of_read {station next : Station τ} {purpose : Purpose} {room : Nat}
    {attempt : Attempt (Chunk room)} (h : station.read purpose room = (attempt, next)) :
    Transport.read station.now room station.transport = (attempt, next.transport) ∧
      next.now = station.now := by
  cases h
  obtain ⟨htransport, hnow⟩ := noteRead_transport _ purpose _
  exact ⟨Prod.ext rfl htransport.symm, hnow⟩

theorem transport_of_write {station next : Station τ} {request : Octets}
    {attempt : Attempt Nat} (h : station.write request = (attempt, next)) :
    Transport.write station.now request station.transport = (attempt, next.transport) ∧
      next.now = station.now := by
  cases h
  obtain ⟨htransport, hnow⟩ := noteWrite_transport _ request _
  exact ⟨Prod.ext rfl htransport.symm, hnow⟩

theorem transport_of_awaitWrite {station next : Station τ} {request : Octets}
    {attempt : Attempt Nat} (h : station.awaitWrite request = (attempt, next)) :
    Transport.awaitWrite station.now station.transport = (attempt, next.transport) ∧
      next.now = station.now := by
  cases h
  obtain ⟨htransport, hnow⟩ := noteWrite_transport _ request _
  exact ⟨Prod.ext rfl htransport.symm, hnow⟩

theorem transport_of_flush {station next : Station τ}
    {attempt : Attempt Unit} (h : station.flush = (attempt, next)) :
    Transport.flush station.now station.transport = (attempt, next.transport) ∧
      next.now = station.now := by
  cases h
  obtain ⟨htransport, hnow⟩ := noteFlush_transport _ _
  exact ⟨Prod.ext rfl htransport.symm, hnow⟩

theorem transport_of_awaitFlush {station next : Station τ}
    {attempt : Attempt Unit} (h : station.awaitFlush = (attempt, next)) :
    Transport.awaitFlush station.now station.transport = (attempt, next.transport) ∧
      next.now = station.now := by
  cases h
  obtain ⟨htransport, hnow⟩ := noteFlush_transport _ _
  exact ⟨Prod.ext rfl htransport.symm, hnow⟩

end Calls

end Station

end CellModem
