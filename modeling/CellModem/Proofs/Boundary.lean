import Mathlib.Data.List.Basic
import CellModem.Proofs.Episode
import CellModem.Proofs.Leftover

/-!
Where a leftover ends. Whatever is read to get rid of it, what is passed on meanwhile is what its
lines announce. If that ends well, the bytes end with a line, unless an unfinished line of them was
dropped because it filled the whole buffer.
-/

namespace CellModem

open Line

namespace Line

/-- Bytes end with a line feed if nothing stands behind their last line. -/
theorem getLast?_eq_lineFeed_iff {bytes : Octets} :
    bytes.getLast? = some lineFeed ↔ bytes ≠ [] ∧ (split bytes).2 = [] := by
  have hjoin := splitRaw_join bytes
  have hrest := lineFeed_notMem_rest bytes
  change _ ↔ bytes ≠ [] ∧ (splitRaw bytes).2 = []
  constructor
  · intro hlast
    refine ⟨?_, ?_⟩
    · rintro rfl
      cases hlast
    · apply Decidable.byContradiction
      intro hsome
      rw [← hjoin, List.getLast?_append_of_ne_nil _ hsome] at hlast
      exact hrest (List.mem_of_getLast? hlast)
  · rintro ⟨hbytes, hnone⟩
    rw [hnone, List.append_nil] at hjoin
    rcases List.eq_nil_or_concat (splitRaw bytes).1 with hlines | ⟨lines, line, hlines⟩
    · rw [hlines] at hjoin
      exact absurd hjoin.symm hbytes
    · rw [← hjoin, hlines]
      simp

end Line

namespace Purge

/-- A leftover is not over before anything was read. -/
theorem Follows.ne_nil_of_isDone {entered : Alignment} {bytes : Octets} {signals : List Signal}
    {purge : Purge} (h : Follows entered bytes signals purge) (hdone : purge.isDone = true)
    (hentered : entered ≠ .aligned) : bytes ≠ [] := by
  rintro rfl
  obtain ⟨seen, lost, htrail⟩ := h
  have hseen : seen = [] := htrail.seen_eq fun raw hraw => nomatch hraw
  have haligned : purge.alignment = .aligned := by
    simp only [isDone, Bool.and_eq_true, beq_iff_eq] at hdone
    exact hdone.1
  rw [htrail.alignment_eq, hseen] at haligned
  exact hentered haligned

end Purge

namespace Tally

/-- Nothing was read for that purpose, nor published. -/
def Lacks (tally : Tally) (purpose : Purpose) : Prop :=
  tally.taken purpose = [] ∧ tally.published purpose = []

/-- What was done for a leftover came first, and what was swept last. -/
def InOrder (tally : Tally) : Prop :=
  tally.received = tally.taken .realignment ++ tally.taken .response ++ tally.taken .sweep ∧
    tally.signals =
      tally.published .realignment ++ tally.published .response ++ tally.published .sweep

/-- What was passed on of a leftover is what its lines announce, if they all fit into the buffer. -/
def Sifts (tally : Tally) : Prop :=
  (∀ raw ∈ (splitRaw (tally.taken .realignment)).1, raw.length < Limits.response) →
    tally.published .realignment =
      announced (tally.entered.whole (split (tally.taken .realignment)).1)

/-- Nothing was done but to get rid of a leftover. -/
structure Early (tally : Tally) : Prop where
  inOrder : tally.InOrder
  response : tally.Lacks .response
  sweep : tally.Lacks .sweep
  flushed_eq : tally.flushed = false

/-- The leftover is not gone yet. -/
structure Realigning (tally : Tally) (purge : Purge) : Prop extends Early tally where
  unaligned : tally.entered ≠ .aligned
  left_eq : tally.left = tally.entered
  follows : purge.Follows tally.entered (tally.taken .realignment) (tally.published .realignment)
  realigned_eq : tally.realigned = false

/-- The stream is aligned, and nothing else was done so far. -/
structure Ready (tally : Tally) : Prop extends Early tally where
  left_eq : tally.left = .aligned
  sifts : tally.Sifts

/-- The bytes of a leftover end with a line, or with as many bytes as fill the buffer. -/
def Bounded (tally : Tally) : Prop :=
  tally.taken .realignment ≠ [] ∧
    ((split (tally.taken .realignment)).2 = [] ∨
      (split (tally.taken .realignment)).2.length = Limits.response)

theorem Early.align {tally : Tally} (h : tally.Early) (alignment : Alignment) :
    (tally.align alignment).Early :=
  ⟨h.inOrder, h.response, h.sweep, h.flushed_eq⟩

theorem Early.absorb {tally : Tally} (h : tally.Early) (bytes : Octets) (signals : List Signal) :
    ((tally.read .realignment bytes).publish .realignment signals).Early where
  inOrder := by
    obtain ⟨hreceived, hsignals⟩ := h.inOrder
    constructor
    · simp [read, publish, hreceived, h.response.1, h.sweep.1]
    · simp [read, publish, hsignals, h.response.2, h.sweep.2]
  response := by simpa [Lacks, read, publish] using h.response
  sweep := by simpa [Lacks, read, publish] using h.sweep
  flushed_eq := h.flushed_eq

theorem early_start (entered : Alignment) : (start entered).Early :=
  ⟨⟨rfl, rfl⟩, ⟨rfl, rfl⟩, ⟨rfl, rfl⟩, rfl⟩

theorem realigning_start {entered : Alignment} (h : entered ≠ .aligned) :
    (start entered).Realigning { alignment := entered, buffer := .empty Limits.response } :=
  { early_start entered with
    unaligned := h
    left_eq := rfl
    follows := Purge.follows_start entered
    realigned_eq := rfl }

theorem sifts_start (entered : Alignment) : (start entered).Sifts := by
  intro _
  cases entered <;> rfl

theorem ready_start {entered : Alignment} (h : entered = .aligned) : (start entered).Ready :=
  { early_start entered with
    left_eq := h
    sifts := sifts_start entered }

namespace Realigning

variable {tally : Tally} {purge : Purge}

theorem sifts (h : tally.Realigning purge) : tally.Sifts :=
  fun hshort => h.follows.signals_eq hshort

/-- However it ends, the stream counts as aligned. -/
theorem ready (h : tally.Realigning purge) : (tally.align .aligned).Ready :=
  { h.toEarly.align .aligned with
    left_eq := rfl
    sifts := h.sifts }

theorem bounded (h : tally.Realigning purge) (hdone : purge.isDone = true) : tally.Bounded :=
  ⟨h.follows.ne_nil_of_isDone hdone h.unaligned, h.follows.rest_of_isDone hdone⟩

theorem absorb (h : tally.Realigning purge) (hdone : purge.isDone = false)
    (chunk : Chunk purge.buffer.room) :
    ((tally.read .realignment chunk.val).publish .realignment
      (purge.absorb chunk).2).Realigning (purge.absorb chunk).1 :=
  { h.toEarly.absorb chunk.val (purge.absorb chunk).2 with
    unaligned := h.unaligned
    left_eq := h.left_eq
    follows := by simpa [read, publish] using h.follows.absorb hdone chunk
    realigned_eq := h.realigned_eq }

end Realigning

end Tally

namespace Realignment

variable {τ : Type} {past : List Event} {entered : Alignment}

open Station

/-- This was done for a leftover so far. -/
abbrev Tells (past : List Event) (entered : Alignment) (realignment : Realignment)
    (station : Station τ) : Prop :=
  Recounts past entered (fun tally => tally.Realigning realignment.purge) station

/-- And this is what it came to. -/
abbrev Told (past : List Event) (entered : Alignment) (result : Except Error Unit)
    (station : Station τ) : Prop :=
  Recounts past entered (fun tally => tally.Ready ∧ tally.realigned = true ∧
    (result = .ok () → tally.Bounded)) station

theorem told_of_align {tally : Tally} {station : Station τ} {purge : Purge}
    {result : Except Error Unit} (hentered : tally.entered = entered)
    (hamounts : Amounts past tally station) (h : tally.Realigning purge)
    (hbounded : result = .ok () → tally.Bounded) :
    Told past entered result (station.align .aligned) :=
  ⟨tally.align .aligned, hentered, hamounts.align .aligned, h.ready, by simp [Tally.align],
    hbounded⟩

theorem tells_start {station : Station τ} (timeout : Millis) (h : station.alignment ≠ .aligned) :
    Tells station.happened station.alignment (start station timeout) station :=
  ⟨.start station.alignment, rfl, amounts_refl station, Tally.realigning_start h⟩

variable [Transport τ]

/-- How getting rid of a leftover goes on, and how it ends. -/
theorem step_tells (realignment : Realignment) (station : Station τ)
    (h : Tells past entered realignment station) :
    Course.Meets (Tells past entered) (Told past entered) (realignment.step station) := by
  obtain ⟨purge, timer⟩ := realignment
  obtain ⟨tally, hentered, hamounts, hrealigning⟩ := h
  unfold step
  cases hdone : purge.isDone with
  | true =>
    simp only [hdone, if_true]
    exact told_of_align hentered hamounts hrealigning fun _ => hrealigning.bounded hdone
  | false =>
    simp only [hdone]
    have hread := hamounts.read .realignment purge.buffer.room fun hother => absurd rfl hother
    cases hrun : station.read .realignment purge.buffer.room with
    | mk attempt next =>
      rw [hrun] at hread
      cases attempt with
      | waiting =>
        cases hask : timer.ask next.now with
        | some later =>
          simp only [hask]
          exact ⟨tally, hentered, hread, hrealigning⟩
        | none =>
          simp only [hask]
          exact told_of_align hentered hread hrealigning nofun
      | failed => exact told_of_align hentered hread hrealigning nofun
      | done chunk =>
        by_cases hend : chunk.val = []
        · rw [tally.noteRead_of_nil .realignment hend] at hread
          simp only [hend, if_true]
          exact told_of_align hentered hread hrealigning nofun
        · simp only [hend, if_false]
          refine ⟨(tally.read .realignment chunk.val).publish .realignment (purge.absorb chunk).2,
            hentered, ?_, hrealigning.absorb hdone chunk⟩
          exact hread.publishAll .realignment (purge.absorb chunk).2

theorem follow_tells (timeout : Millis) (moments : List Millis) (station : Station τ)
    (h : station.alignment ≠ .aligned) :
    Course.Meets (Tells station.happened station.alignment)
      (Told station.happened station.alignment)
      (Course.follow step moments (start station timeout) station) := by
  exact Course.follow_meets step_tells (fun _ _ moment htells => htells.passTo moment) moments _
    station (tells_start timeout h)

/-- If a leftover is got rid of without failure, what was read of it ends with a line feed, unless
the last bytes of it are an unfinished line that filled the whole buffer and was dropped. -/
theorem ends_with_line_iff (station last : Station τ) (timeout : Millis) (moments : List Millis)
    (hunaligned : station.alignment ≠ .aligned)
    (hrun : Course.follow step moments (start station timeout) station =
      (.finished (.ok ()), last)) :
    ∃ consumed, last.received = station.received ++ consumed ∧ last.alignment = .aligned ∧
      (consumed.getLast? = some lineFeed ↔ (split consumed).2.length ≠ Limits.response) ∧
      ((split consumed).2 = [] ∨ (split consumed).2.length = Limits.response) := by
  have htold := follow_tells timeout moments station hunaligned
  rw [hrun] at htold
  obtain ⟨tally, -, hamounts, hready, -, hbounded⟩ := htold
  obtain ⟨hsome, hrest⟩ := hbounded rfl
  have hall : tally.received = tally.taken .realignment := by
    rw [hready.inOrder.1, hready.response.1, hready.sweep.1, List.append_nil,
      List.append_nil]
  have hreceived := hamounts.received_eq
  rw [← Station.received_eq_happened, hall] at hreceived
  refine ⟨tally.taken .realignment, hreceived, hamounts.alignment_eq.trans hready.left_eq, ?_, hrest⟩
  rw [getLast?_eq_lineFeed_iff]
  constructor
  · rintro ⟨-, hnone⟩
    rw [hnone]
    decide
  · intro hshort
    rcases hrest with hnone | hlong
    · exact ⟨hsome, hnone⟩
    · exact absurd hlong hshort

/-- The end of a response that was given up, with a line behind it that is longer than the
buffer. -/
def longLineModem : Bench.Modem where
  wire :=
    [{ content := .data (Octets.ofText "OK\r\n" ++ List.replicate 300 120 ++ Octets.ofText "\r\n")
       arrival := 0 }]
  rules :=
    [{ request := Octets.ofText "AT%XVBAT"
       replies := [[{ content := .data (Octets.ofText "%XVBAT: 3712\r\nOK\r\n") }]] }]

def stationAfterGivingUp : Station Bench.Modem where
  transport := longLineModem
  alignment := .awaitingVerdict

def stationWithinLine : Station Bench.Modem :=
  (Course.follow step [0, 0, 0] (start stationAfterGivingUp 500) stationAfterGivingUp).2

def voltageCall : Call where
  command := "AT%XVBAT"
  terminator := "\r\n"
  timeout := 500

set_option maxRecDepth 8000 in
/-- The rest of the long line is taken for a part of the next response. -/
theorem ends_within_long_line :
    stationWithinLine.alignment = .aligned ∧
      (∃ consumed, stationWithinLine.received = [] ++ consumed ∧
        consumed.getLast? ≠ some lineFeed) ∧
      (Course.follow (Exchange.step voltageCall) [0, 0, 0, 0, 0] .queued stationWithinLine).1 =
        .finished (.ok (List.replicate 44 120 ++ lineFeed :: Octets.ofText "%XVBAT: 3712")) := by
  have hresult : (Course.follow step [0, 0, 0] (start stationAfterGivingUp 500)
      stationAfterGivingUp).1 = .finished (.ok ()) := by cbv
  obtain ⟨consumed, hconsumed, haligned, hline, -⟩ :=
    ends_with_line_iff stationAfterGivingUp stationWithinLine 500 [0, 0, 0] (by decide)
      (Prod.ext hresult rfl)
  have hreceived : stationWithinLine.received =
      Octets.ofText "OK\r\n" ++ List.replicate 256 120 := by cbv
  have hbytes : consumed = Octets.ofText "OK\r\n" ++ List.replicate 256 120 :=
    hconsumed.symm.trans hreceived
  refine ⟨haligned, ⟨consumed, hconsumed, ?_⟩, by cbv⟩
  rw [Ne, hline, Decidable.not_not, hbytes]
  cbv

end Realignment

end CellModem
