import CellModem.Proofs.Announcement
import CellModem.Realignment

/-!
What getting rid of a leftover comes to, in terms of the bytes that were read for it. Lines are gone
through as they are in the stream, unless one is too long for the buffer: of such a line the front
part was dropped as if nobody had sent it.
-/

namespace CellModem

open Line

namespace Line

/-- Bytes without a line feed only make the first line longer that comes behind them. -/
theorem splitRaw_append_of_notMem {front : Octets} (h : lineFeed ∉ front) (more : Octets) :
    splitRaw (front ++ more) =
      match (splitRaw more).1 with
      | [] => ([], front ++ (splitRaw more).2)
      | raw :: raws => ((front ++ raw) :: raws, (splitRaw more).2) := by
  induction front with
  | nil => cases hraws : (splitRaw more).1 <;> simp [hraws, Prod.ext_iff]
  | cons b front ih =>
    obtain ⟨hb, hfront⟩ : lineFeed ≠ b ∧ lineFeed ∉ front := by simpa using h
    cases hraws : (splitRaw more).1 <;> simp [splitRaw, Ne.symm hb, ih hfront, hraws]

end Line

namespace Alignment

/-- How the stream stands behind a line that nobody waits for. -/
def pass (alignment : Alignment) (line : Octets) : Alignment :=
  match alignment with
  | .aligned | .midLine => .aligned
  | .awaitingVerdict => if isFinal [] line then .aligned else .awaitingVerdict

/-- And behind several of them. -/
def behind (alignment : Alignment) (lines : List Octets) : Alignment :=
  lines.foldl pass alignment

/-- The lines of a stream that are whole: within a line, the first one is only the rest of one. -/
def whole (alignment : Alignment) (lines : List Octets) : List Octets :=
  match alignment with
  | .midLine => lines.drop 1
  | .aligned | .awaitingVerdict => lines

theorem behind_append (alignment : Alignment) (first second : List Octets) :
    alignment.behind (first ++ second) = (alignment.behind first).behind second :=
  List.foldl_append

theorem whole_of_ne_midLine {alignment : Alignment} (h : alignment ≠ .midLine)
    (lines : List Octets) : alignment.whole lines = lines := by
  cases alignment with
  | aligned => rfl
  | midLine => exact absurd rfl h
  | awaitingVerdict => rfl

theorem pass_ne_midLine (alignment : Alignment) (line : Octets) :
    alignment.pass line ≠ .midLine := by
  cases alignment with
  | aligned => simp [pass]
  | midLine => simp [pass]
  | awaitingVerdict => cases hline : isFinal [] line <;> simp [pass, hline]

theorem behind_ne_midLine {alignment : Alignment} (h : alignment ≠ .midLine)
    (lines : List Octets) : alignment.behind lines ≠ .midLine := by
  induction lines generalizing alignment with
  | nil => exact h
  | cons line lines ih => exact ih (pass_ne_midLine alignment line)

theorem whole_append (alignment : Alignment) (first second : List Octets) :
    alignment.whole (first ++ second) =
      alignment.whole first ++ (alignment.behind first).whole second := by
  by_cases hcut : alignment = .midLine
  · subst hcut
    cases first with
    | nil => rfl
    | cons line lines =>
      have hnext : behind .midLine (line :: lines) ≠ .midLine :=
        behind_ne_midLine (pass_ne_midLine _ _) lines
      rw [whole_of_ne_midLine hnext]
      rfl
  · rw [whole_of_ne_midLine hcut, whole_of_ne_midLine hcut,
      whole_of_ne_midLine (behind_ne_midLine hcut first)]

/-- A line that is no final result leaves a stream as it is, but for one that was cut. -/
theorem pass_of_not_verdict {alignment : Alignment} {line : Octets} (h : alignment ≠ .midLine)
    (hline : ∀ v, idleKind line ≠ .verdict v) : alignment.pass line = alignment := by
  cases alignment with
  | aligned => rfl
  | midLine => exact absurd rfl h
  | awaitingVerdict => simp only [pass, isFinal_eq_false hline, Bool.false_eq_true, if_false]

theorem pass_of_verdict {alignment : Alignment} {line : Octets} {v : Verdict}
    (hline : idleKind line = .verdict v) : alignment.pass line = .aligned := by
  cases alignment with
  | aligned => rfl
  | midLine => rfl
  | awaitingVerdict => simp only [pass, isFinal_of_kind hline, if_true]

end Alignment

namespace Purge

theorem sift_storage (alignment : Alignment) (buffer : Buffer) :
    (sift alignment buffer).1.buffer.kept = buffer.kept ∧
      (sift alignment buffer).1.buffer.storage = buffer.storage := by
  fun_induction sift alignment buffer with
  | case1 => exact ⟨rfl, rfl⟩
  | case2 buffer span hspan ih => exact ih
  | case3 buffer span hspan alignment halignment hkind purge later hsift ih =>
    rw [hsift] at ih
    exact ih
  | case4 alignment buffer span hspan verdict hkind halignment ih => exact ih
  | case5 buffer span hspan alignment halignment hkind ih => exact ih
  | case6 buffer span hspan alignment halignment hkind ih => exact ih
  | case7 buffer span hspan alignment halignment hkind ih => exact ih

/-- The complete lines of a buffer were gone through. -/
structure Sifted (alignment : Alignment) (buffer : Buffer) (result : Purge × List Signal) :
    Prop where
  alignment_eq : result.1.alignment = alignment.behind (split buffer.pending).1
  signals_eq : result.2 = announced (alignment.whole (split buffer.pending).1)
  pending_eq : result.1.buffer.pending = (split buffer.pending).2

/-- The first line comes to what it comes to alone. -/
theorem Sifted.cons {alignment next : Alignment} {buffer : Buffer} {span : buffer.Span}
    {purge : Purge} {later : List Signal} (h : Sifted next (buffer.skip span) (purge, later))
    (hspan : buffer.nextLine? = some span) (hpass : alignment.pass (buffer.line span) = next) :
    Sifted alignment buffer
      (purge, announced (alignment.whole [buffer.line span]) ++ later) := by
  subst hpass
  have hsplit := Buffer.split_of_nextLine? hspan
  have hwhole := alignment.whole_append [buffer.line span] (split (buffer.skip span).pending).1
  constructor
  · rw [hsplit]
    exact h.alignment_eq
  · rw [hsplit]
    refine Eq.trans ?_ (congrArg announced hwhole).symm
    rw [announced_append]
    exact congrArg _ h.signals_eq
  · rw [hsplit]
    exact h.pending_eq

theorem Sifted.cons_of_other {alignment next : Alignment} {buffer : Buffer} {span : buffer.Span}
    {result : Purge × List Signal} (h : Sifted next (buffer.skip span) result)
    (hspan : buffer.nextLine? = some span) (hpass : alignment.pass (buffer.line span) = next)
    (halignment : alignment ≠ .midLine) (hkind : idleKind (buffer.line span) ≠ .notice) :
    Sifted alignment buffer result := by
  have hcons := h.cons hspan hpass
  rw [Alignment.whole_of_ne_midLine halignment,
    announced_cons_of_not_isNotice [] (isNotice_of_idleKind_ne hkind)] at hcons
  exact hcons

theorem sift_sifted (alignment : Alignment) (buffer : Buffer) :
    Sifted alignment buffer (sift alignment buffer) := by
  fun_induction sift alignment buffer with
  | case1 alignment buffer hnone =>
    have hsplit := Buffer.split_of_nextLine?_eq_none hnone
    constructor
    · rw [hsplit]
      rfl
    · rw [hsplit]
      cases alignment <;> rfl
    · rw [hsplit]
  | case2 buffer span hspan ih => exact ih.cons hspan rfl
  | case3 buffer span hspan alignment halignment hkind purge later hsift ih =>
    have hpass : alignment.pass (buffer.line span) = alignment :=
      Alignment.pass_of_not_verdict halignment (by simp [hkind])
    rw [hsift] at ih
    have hcons := ih.cons hspan hpass
    rw [Alignment.whole_of_ne_midLine halignment,
      announced_cons_of_isNotice [] (idleKind_eq_notice_iff.mp hkind)] at hcons
    simpa [announced] using hcons
  | case4 alignment buffer span hspan verdict hkind halignment ih =>
    exact ih.cons_of_other hspan (Alignment.pass_of_verdict hkind) halignment (by simp [hkind])
  | case5 buffer span hspan alignment halignment hkind ih
  | case6 buffer span hspan alignment halignment hkind ih
  | case7 buffer span hspan alignment halignment hkind ih =>
    have hpass : alignment.pass (buffer.line span) = alignment :=
      Alignment.pass_of_not_verdict halignment (by simp [hkind])
    exact ih.cons_of_other hspan hpass halignment (by simp [hkind])

/-- A read was taken in: its lines were gone through, and an unfinished line that fills the whole
buffer was dropped. -/
structure Absorbed (purge : Purge) (bytes dropped : Octets) (result : Purge × List Signal) :
    Prop where
  alignment_eq : result.1.alignment =
    purge.alignment.behind (split (purge.buffer.pending ++ bytes)).1
  signals_eq : result.2 = announced (purge.alignment.whole (split (purge.buffer.pending ++ bytes)).1)
  rest_eq : (split (purge.buffer.pending ++ bytes)).2 = dropped ++ result.1.buffer.pending
  dropped_eq : dropped = [] ∨ result.1.buffer.pending = [] ∧
    purge.buffer.kept + dropped.length = purge.buffer.storage.length
  kept_eq : result.1.buffer.kept = purge.buffer.kept
  length_eq : result.1.buffer.storage.length = purge.buffer.storage.length
  room_pos : purge.buffer.kept < purge.buffer.storage.length → 0 < result.1.buffer.room

theorem absorb_absorbed (purge : Purge) (chunk : Chunk purge.buffer.room) :
    ∃ dropped, Absorbed purge chunk.val dropped (purge.absorb chunk) := by
  have hsifted := sift_sifted purge.alignment (purge.buffer.fill chunk)
  obtain ⟨hkept, hstorage⟩ := sift_storage purge.alignment (purge.buffer.fill chunk)
  unfold absorb
  cases hsift : sift purge.alignment (purge.buffer.fill chunk) with
  | mk sifted signals =>
    rw [hsift] at hsifted hkept hstorage
    obtain ⟨halignment, hsignals, hpending⟩ := hsifted
    rw [Buffer.pending_fill] at halignment hsignals hpending
    obtain ⟨alignment, buffer⟩ := sifted
    change buffer.kept = purge.buffer.kept at hkept
    change buffer.pending = _ at hpending
    have hlength : buffer.compact.storage.length = purge.buffer.storage.length := by
      rw [Buffer.length_storage_compact, hstorage, Buffer.length_storage_fill]
    simp only
    by_cases hfull : buffer.compact.room = 0
    · simp only [hfull, if_true]
      refine ⟨buffer.pending, halignment, hsignals, ?_, Or.inr ⟨Buffer.pending_discard _, ?_⟩,
        hkept, hlength, ?_⟩
      · rw [Buffer.pending_discard, List.append_nil, hpending]
      · have hfilled := buffer.compact.filled_le_length
        change buffer.compact.storage.length - (buffer.kept + buffer.pending.length) = 0 at hfull
        change buffer.kept + buffer.pending.length ≤ buffer.compact.storage.length at hfilled
        omega
      · intro hsize
        change 0 < buffer.compact.storage.length - buffer.kept
        omega
    · simp only [hfull, if_false]
      refine ⟨[], halignment, hsignals, ?_, Or.inl rfl, hkept, hlength,
        fun _ => Nat.pos_of_ne_zero hfull⟩
      rw [Buffer.pending_compact, List.nil_append, hpending]

/-- What has become of the bytes that were read since the stream stood as `entered`: these lines
were seen, and `lost` is what was dropped of the line that is not finished. -/
structure Trail (entered : Alignment) (bytes : Octets) (seen : List Octets) (lost : Octets)
    (signals : List Signal) (purge : Purge) : Prop where
  alignment_eq : purge.alignment = entered.behind seen
  signals_eq : signals = announced (entered.whole seen)
  rest_eq : (split bytes).2 = lost ++ purge.buffer.pending
  /-- If every line fits into the buffer, with the carriage return that may end it, none was seen
  other than it is. -/
  seen_eq : (∀ raw ∈ (splitRaw bytes).1, raw.length < Limits.response) → seen = (split bytes).1
  lost_eq : lost = [] ∨ Limits.response ≤ lost.length
  /-- Behind an aligned stream at most one buffer was dropped, and that ended it. -/
  lost_of_aligned : purge.alignment = .aligned →
    lost = [] ∨ lost.length = Limits.response ∧ purge.buffer.pending = []
  kept_eq : purge.buffer.kept = 0
  length_eq : purge.buffer.storage.length = Limits.response
  room_pos : 0 < purge.buffer.room

/-- So far this was read and passed on to get rid of a leftover. -/
def Follows (entered : Alignment) (bytes : Octets) (signals : List Signal) (purge : Purge) : Prop :=
  ∃ seen lost, Trail entered bytes seen lost signals purge

theorem follows_start (entered : Alignment) :
    Follows entered [] [] { alignment := entered, buffer := .empty Limits.response } := by
  refine ⟨[], [], rfl, ?_, rfl, fun _ => rfl, Or.inl rfl, fun _ => Or.inl rfl, rfl,
    List.length_replicate, ?_⟩
  · cases entered <;> rfl
  · change 0 < (List.replicate Limits.response (0 : UInt8)).length - 0
    rw [List.length_replicate]
    decide

variable {entered : Alignment} {bytes chunk lost dropped : Octets} {seen : List Octets}
  {signals : List Signal} {purge : Purge} {result : Purge × List Signal}

theorem Trail.splitRaw_append (h : Trail entered bytes seen lost signals purge) :
    splitRaw (bytes ++ chunk) =
      ((splitRaw bytes).1 ++ (splitRaw (lost ++ (purge.buffer.pending ++ chunk))).1,
        (splitRaw (lost ++ (purge.buffer.pending ++ chunk))).2) := by
  have hrest : (splitRaw bytes).2 = lost ++ purge.buffer.pending := h.rest_eq
  rw [Line.splitRaw_append, hrest, List.append_assoc]

theorem Trail.lineFeed_notMem (h : Trail entered bytes seen lost signals purge) :
    lineFeed ∉ lost := by
  have hrest : (splitRaw bytes).2 = lost ++ purge.buffer.pending := h.rest_eq
  intro hmem
  apply lineFeed_notMem_rest bytes
  rw [hrest]
  exact List.mem_append_left _ hmem

theorem Trail.length_dropped (h : Trail entered bytes seen lost signals purge)
    (habsorbed : Absorbed purge chunk dropped result) :
    dropped = [] ∨ dropped.length = Limits.response ∧ result.1.buffer.pending = [] := by
  have hkept := h.kept_eq
  have hlength := h.length_eq
  rcases habsorbed.dropped_eq with hnone | ⟨hpending, hsize⟩
  · exact Or.inl hnone
  · exact Or.inr ⟨by omega, hpending⟩

/-- A read that does not complete a line only makes the unfinished one longer. -/
theorem Trail.absorb_unfinished (h : Trail entered bytes seen lost signals purge)
    (hdone : purge.isDone = false) (habsorbed : Absorbed purge chunk dropped result)
    (hnone : (splitRaw (purge.buffer.pending ++ chunk)).1 = []) :
    Trail entered (bytes ++ chunk) seen (lost ++ dropped) (signals ++ result.2) result.1 := by
  have hsplit : splitRaw (bytes ++ chunk) =
      ((splitRaw bytes).1, lost ++ (dropped ++ result.1.buffer.pending)) := by
    have hrest : (splitRaw (purge.buffer.pending ++ chunk)).2 = dropped ++ result.1.buffer.pending :=
      habsorbed.rest_eq
    rw [h.splitRaw_append, splitRaw_append_of_notMem h.lineFeed_notMem, hnone, hrest]
    simp only [List.append_nil]
  have hlines : (split (purge.buffer.pending ++ chunk)).1 = [] := by
    rw [split, hnone]
    rfl
  have hsame : result.1.alignment = purge.alignment := by
    rw [habsorbed.alignment_eq, hlines]
    rfl
  have hsilent : result.2 = [] := by
    rw [habsorbed.signals_eq, hlines]
    cases purge.alignment <;> rfl
  have hdropped := h.length_dropped habsorbed
  constructor
  · rw [hsame, h.alignment_eq]
  · rw [hsilent, List.append_nil, h.signals_eq]
  · rw [split, hsplit, List.append_assoc]
  · intro hshort
    rw [hsplit] at hshort
    rw [split, hsplit, h.seen_eq hshort]
    rfl
  · rcases hdropped with rfl | ⟨hsize, -⟩
    · rw [List.append_nil]
      exact h.lost_eq
    · right
      rw [List.length_append]
      omega
  · intro haligned
    rw [hsame] at haligned
    rcases h.lost_of_aligned haligned with rfl | ⟨-, hpending⟩
    · exact hdropped
    · simp [isDone, haligned, hpending] at hdone
  · exact habsorbed.kept_eq.trans h.kept_eq
  · exact habsorbed.length_eq.trans h.length_eq
  · apply habsorbed.room_pos
    rw [h.kept_eq, h.length_eq]
    decide

/-- A read that completes lines adds them to those that were seen. Of the first one only the end is
seen, if something was dropped of it before. -/
theorem Trail.absorb_lines (h : Trail entered bytes seen lost signals purge)
    (habsorbed : Absorbed purge chunk dropped result) {raw : Octets} {raws : List Octets}
    (hsome : (splitRaw (purge.buffer.pending ++ chunk)).1 = raw :: raws) :
    Trail entered (bytes ++ chunk) (seen ++ (split (purge.buffer.pending ++ chunk)).1) dropped
      (signals ++ result.2) result.1 := by
  have hsplit : splitRaw (bytes ++ chunk) =
      ((splitRaw bytes).1 ++ (lost ++ raw) :: raws, dropped ++ result.1.buffer.pending) := by
    have hrest : (splitRaw (purge.buffer.pending ++ chunk)).2 = dropped ++ result.1.buffer.pending :=
      habsorbed.rest_eq
    rw [h.splitRaw_append, splitRaw_append_of_notMem h.lineFeed_notMem, hsome, hrest]
  have hlines : (split (purge.buffer.pending ++ chunk)).1 = (raw :: raws).map chomp := by
    rw [split, hsome]
  have hdropped := h.length_dropped habsorbed
  constructor
  · rw [habsorbed.alignment_eq, h.alignment_eq, Alignment.behind_append]
  · rw [habsorbed.signals_eq, h.signals_eq, h.alignment_eq, Alignment.whole_append,
      announced_append]
  · rw [split, hsplit]
  · intro hshort
    rw [hsplit] at hshort
    have hline : (lost ++ raw).length < Limits.response := hshort _ (by simp)
    have hlost : lost = [] := by
      rcases h.lost_eq with hnone | hlong
      · exact hnone
      · rw [List.length_append] at hline
        omega
    have hseen := h.seen_eq fun line hline => hshort line (List.mem_append_left _ hline)
    rw [hseen, hlines, split, split, hsplit, hlost, List.nil_append, List.map_append]
  · rcases hdropped with hnone | ⟨hsize, -⟩
    · exact Or.inl hnone
    · exact Or.inr (Nat.le_of_eq hsize.symm)
  · exact fun _ => hdropped
  · exact habsorbed.kept_eq.trans h.kept_eq
  · exact habsorbed.length_eq.trans h.length_eq
  · apply habsorbed.room_pos
    rw [h.kept_eq, h.length_eq]
    decide

/-- One more read adds its lines. -/
theorem Follows.absorb (h : Follows entered bytes signals purge) (hdone : purge.isDone = false)
    (chunk : Chunk purge.buffer.room) :
    Follows entered (bytes ++ chunk.val) (signals ++ (purge.absorb chunk).2)
      (purge.absorb chunk).1 := by
  obtain ⟨seen, lost, htrail⟩ := h
  obtain ⟨dropped, habsorbed⟩ := purge.absorb_absorbed chunk
  cases hraws : (splitRaw (purge.buffer.pending ++ chunk.val)).1 with
  | nil => exact ⟨seen, lost ++ dropped, htrail.absorb_unfinished hdone habsorbed hraws⟩
  | cons raw raws => exact ⟨_, dropped, htrail.absorb_lines habsorbed hraws⟩

/-- What is passed on is what the lines announce, if they all fit into the buffer. -/
theorem Follows.signals_eq (h : Follows entered bytes signals purge)
    (hshort : ∀ raw ∈ (splitRaw bytes).1, raw.length < Limits.response) :
    signals = announced (entered.whole (split bytes).1) := by
  obtain ⟨seen, lost, htrail⟩ := h
  rw [htrail.signals_eq, htrail.seen_eq hshort]

/-- At the end of a leftover nothing is behind the last line, unless it is what was dropped because
the buffer was full. -/
theorem Follows.rest_of_isDone (h : Follows entered bytes signals purge)
    (hdone : purge.isDone = true) :
    (split bytes).2 = [] ∨ (split bytes).2.length = Limits.response := by
  obtain ⟨seen, lost, htrail⟩ := h
  obtain ⟨haligned, hpending⟩ : purge.alignment = .aligned ∧ purge.buffer.pending = [] := by
    simpa [isDone] using hdone
  rw [htrail.rest_eq, hpending, List.append_nil]
  rcases htrail.lost_of_aligned haligned with hnone | ⟨hsize, -⟩
  · exact Or.inl hnone
  · exact Or.inr hsize

end Purge

end CellModem
