import CellModem.Line
import CellModem.Transport

/-!
Storage of fixed size into which the byte stream is read and which is emptied line by line, in
place. Kept bytes stand at the front, bytes that nobody has looked at further back, and reads go
behind those. What is in between was looked at and is free to be written over. The bounds are part
of the type, so no operation reaches outside the storage.
-/

namespace CellModem

/-- The storage with `bytes` in place of what it held from `start` on. -/
def Octets.overwrite (storage bytes : Octets) (start : Nat) : Octets :=
  storage.take start ++ bytes ++ storage.drop (start + bytes.length)

structure Buffer where
  storage : Octets
  /-- How many bytes at the front stay. -/
  kept : Nat := 0
  /-- Where the bytes begin that nobody has looked at. -/
  scanned : Nat := 0
  /-- Where they end. -/
  filled : Nat := 0
  kept_le_scanned : kept ≤ scanned
  scanned_le_filled : scanned ≤ filled
  filled_le_length : filled ≤ storage.length
  deriving DecidableEq, Repr

namespace Octets

theorem length_overwrite {storage bytes : Octets} {start : Nat}
    (hfits : start + bytes.length ≤ storage.length) :
    (storage.overwrite bytes start).length = storage.length := by
  simp only [overwrite, List.length_append, List.length_take, List.length_drop]
  omega

/-- What stands in front of the new bytes stays. -/
theorem take_overwrite {storage bytes : Octets} {start count : Nat}
    (hcount : count ≤ start) (hstart : start ≤ storage.length) :
    (storage.overwrite bytes start).take count = storage.take count := by
  have htaken : count ≤ (storage.take start).length := by
    rw [List.length_take]
    omega
  rw [overwrite, List.append_assoc, List.take_append_of_le_length htaken, List.take_take,
    Nat.min_eq_left hcount]

/-- The new bytes stand behind what was in front of them. -/
theorem take_overwrite_end {storage bytes : Octets} {start : Nat}
    (hstart : start ≤ storage.length) :
    (storage.overwrite bytes start).take (start + bytes.length) =
      storage.take start ++ bytes := by
  apply List.take_left'
  simp only [List.length_append, List.length_take]
  omega

/-- What stands behind the new bytes stays. -/
theorem drop_overwrite {storage bytes : Octets} {start count : Nat}
    (hfits : start + bytes.length ≤ storage.length) (hcount : start + bytes.length ≤ count) :
    (storage.overwrite bytes start).drop count = storage.drop count := by
  have hlength : (storage.take start ++ bytes).length = start + bytes.length := by
    simp only [List.length_append, List.length_take]
    omega
  obtain ⟨more, rfl⟩ := Nat.exists_eq_add_of_le hcount
  rw [overwrite, ← hlength, List.drop_length_add_append, List.drop_drop]

end Octets

namespace Buffer

def empty (size : Nat) : Buffer where
  storage := List.replicate size 0
  kept_le_scanned := Nat.le_refl 0
  scanned_le_filled := Nat.le_refl 0
  filled_le_length := Nat.zero_le _

/-- Room for further reads. -/
def room (buffer : Buffer) : Nat :=
  buffer.storage.length - buffer.filled

/-- The bytes that stay. -/
def front (buffer : Buffer) : Octets :=
  buffer.storage.take buffer.kept

/-- The bytes that nobody has looked at. -/
def pending (buffer : Buffer) : Octets :=
  (buffer.storage.take buffer.filled).drop buffer.scanned

/-- Put the bytes of a read behind all others. -/
def fill (buffer : Buffer) (chunk : Chunk buffer.room) : Buffer :=
  have hfits : buffer.filled + chunk.val.length ≤ buffer.storage.length := by
    have hroom := chunk.property
    have hfilled := buffer.filled_le_length
    unfold room at hroom
    omega
  { storage := buffer.storage.overwrite chunk.val buffer.filled
    kept := buffer.kept
    scanned := buffer.scanned
    filled := buffer.filled + chunk.val.length
    kept_le_scanned := buffer.kept_le_scanned
    scanned_le_filled := Nat.le_add_right_of_le buffer.scanned_le_filled
    filled_le_length := by rw [Octets.length_overwrite hfits]; exact hfits }

/-- Where the first complete line among the pending bytes ends, without its terminator and with
it. -/
structure Span (buffer : Buffer) where
  length : Nat
  used : Nat
  length_lt_used : length < used
  used_le : buffer.scanned + used ≤ buffer.filled

theorem length_pending (buffer : Buffer) :
    buffer.pending.length = buffer.filled - buffer.scanned := by
  have hfilled := buffer.filled_le_length
  simp only [pending, List.length_drop, List.length_take]
  omega

/-- The first complete line among the pending bytes. -/
def nextLine? (buffer : Buffer) : Option buffer.Span :=
  match hnext : Line.next? buffer.pending with
  | none => none
  | some (raw, _) =>
    some
      { length := (Line.chomp raw).length
        used := raw.length + 1
        length_lt_used := Nat.lt_succ_of_le (Line.length_chomp_le raw)
        used_le := by
          have hlength := Line.length_of_next? hnext
          have hpending := buffer.length_pending
          omega }

def line (buffer : Buffer) (span : buffer.Span) : Octets :=
  buffer.pending.take span.length

/-- Pass over a line. -/
def skip (buffer : Buffer) (span : buffer.Span) : Buffer where
  storage := buffer.storage
  kept := buffer.kept
  scanned := buffer.scanned + span.used
  filled := buffer.filled
  kept_le_scanned := Nat.le_add_right_of_le buffer.kept_le_scanned
  scanned_le_filled := span.used_le
  filled_le_length := buffer.filled_le_length

theorem nextLine?_eq_none {buffer : Buffer} (h : buffer.nextLine? = none) :
    Line.next? buffer.pending = none := by
  unfold nextLine? at h
  split at h
  case h_1 hnext => exact hnext
  case h_2 => cases h

/-- A line that is found is the first line of the pending bytes, and the bytes behind it are left
when it is passed over. -/
theorem next?_of_nextLine? {buffer : Buffer} {span : buffer.Span}
    (h : buffer.nextLine? = some span) :
    ∃ raw, Line.next? buffer.pending = some (raw, buffer.pending.drop span.used) ∧
      buffer.line span = Line.chomp raw := by
  unfold nextLine? at h
  split at h
  case h_1 => cases h
  case h_2 raw rest hnext =>
    cases h
    have hbytes := Line.eq_append_of_next? hnext
    have hrest : buffer.pending.drop (raw.length + 1) = rest := by
      rw [hbytes, ← List.drop_drop, List.drop_left, List.drop_one, List.tail_cons]
    have hline : buffer.pending.take (Line.chomp raw).length = Line.chomp raw := by
      rw [hbytes, List.take_append_of_le_length (Line.length_chomp_le raw),
        Line.take_length_chomp]
    exact ⟨raw, by rw [hrest]; exact hnext, hline⟩

theorem used_le_pending {buffer : Buffer} (span : buffer.Span) :
    span.used ≤ buffer.pending.length := by
  rw [length_pending]
  have hused := span.used_le
  omega

theorem length_line {buffer : Buffer} (span : buffer.Span) :
    (buffer.line span).length = span.length := by
  have hused := used_le_pending span
  have hshort := span.length_lt_used
  rw [line, List.length_take]
  omega

/-- A line takes up more room on the wire than it does among the kept bytes, since its terminator
is dropped and one line feed put in its place. So it never reaches unread bytes there. -/
theorem kept_line_fits {buffer : Buffer} (span : buffer.Span) :
    buffer.kept + (buffer.line span).length + 1 ≤ buffer.scanned + span.used := by
  have hshort := span.length_lt_used
  have hkept := buffer.kept_le_scanned
  rw [length_line]
  omega

/-- The storage once a line stands behind the kept bytes, and a line feed behind it. -/
def storageKeeping (buffer : Buffer) (span : buffer.Span) : Octets :=
  (buffer.storage.overwrite (buffer.line span) buffer.kept).overwrite [Line.lineFeed]
    (buffer.kept + (buffer.line span).length)

theorem length_storageKeeping {buffer : Buffer} (span : buffer.Span) :
    (buffer.storageKeeping span).length = buffer.storage.length := by
  have hfits := kept_line_fits span
  have hused := span.used_le
  have hfilled := buffer.filled_le_length
  have hline : (buffer.storage.overwrite (buffer.line span) buffer.kept).length =
      buffer.storage.length :=
    Octets.length_overwrite (by omega)
  rw [storageKeeping, Octets.length_overwrite, hline]
  rw [hline, List.length_singleton]
  omega

/-- Keep a line, with a line feed behind it. -/
def keep (buffer : Buffer) (span : buffer.Span) : Buffer where
  storage := buffer.storageKeeping span
  kept := buffer.kept + (buffer.line span).length + 1
  scanned := buffer.scanned + span.used
  filled := buffer.filled
  kept_le_scanned := kept_line_fits span
  scanned_le_filled := span.used_le
  filled_le_length := by rw [length_storageKeeping]; exact buffer.filled_le_length

/-- Move the pending bytes down to the kept ones. -/
def compact (buffer : Buffer) : Buffer :=
  have hfits : buffer.kept + buffer.pending.length ≤ buffer.storage.length := by
    have hkept := buffer.kept_le_scanned
    have hscanned := buffer.scanned_le_filled
    have hfilled := buffer.filled_le_length
    rw [length_pending]
    omega
  { storage := buffer.storage.overwrite buffer.pending buffer.kept
    kept := buffer.kept
    scanned := buffer.kept
    filled := buffer.kept + buffer.pending.length
    kept_le_scanned := Nat.le_refl _
    scanned_le_filled := Nat.le_add_right _ _
    filled_le_length := by rw [Octets.length_overwrite hfits]; exact hfits }

/-- Forget the pending bytes. -/
def discard (buffer : Buffer) : Buffer where
  storage := buffer.storage
  kept := buffer.kept
  scanned := buffer.kept
  filled := buffer.kept
  kept_le_scanned := Nat.le_refl _
  scanned_le_filled := Nat.le_refl _
  filled_le_length := by
    have hkept := buffer.kept_le_scanned
    have hscanned := buffer.scanned_le_filled
    have hfilled := buffer.filled_le_length
    omega

theorem pending_empty (size : Nat) : (empty size).pending = [] :=
  rfl

theorem length_front (buffer : Buffer) : buffer.front.length = buffer.kept := by
  have hkept := buffer.kept_le_scanned
  have hscanned := buffer.scanned_le_filled
  have hfilled := buffer.filled_le_length
  rw [front, List.length_take]
  omega

theorem length_storage_fill (buffer : Buffer) (chunk : Chunk buffer.room) :
    (buffer.fill chunk).storage.length = buffer.storage.length := by
  have hroom := chunk.property
  have hfilled := buffer.filled_le_length
  unfold room at hroom
  exact Octets.length_overwrite (by omega)

theorem front_fill (buffer : Buffer) (chunk : Chunk buffer.room) :
    (buffer.fill chunk).front = buffer.front :=
  Octets.take_overwrite
    (Nat.le_trans buffer.kept_le_scanned buffer.scanned_le_filled) buffer.filled_le_length

theorem pending_fill (buffer : Buffer) (chunk : Chunk buffer.room) :
    (buffer.fill chunk).pending = buffer.pending ++ chunk.val := by
  have hscanned : buffer.scanned ≤ (buffer.storage.take buffer.filled).length := by
    rw [List.length_take, Nat.min_eq_left buffer.filled_le_length]
    exact buffer.scanned_le_filled
  simp only [pending, fill]
  rw [Octets.take_overwrite_end buffer.filled_le_length, List.drop_append_of_le_length hscanned]

theorem length_storage_compact (buffer : Buffer) :
    buffer.compact.storage.length = buffer.storage.length := by
  have hkept := buffer.kept_le_scanned
  have hscanned := buffer.scanned_le_filled
  have hfilled := buffer.filled_le_length
  have hpending := buffer.length_pending
  exact Octets.length_overwrite (by omega)

theorem unread_skip_lt {buffer : Buffer} (span : buffer.Span) :
    (buffer.skip span).filled - (buffer.skip span).scanned < buffer.filled - buffer.scanned := by
  have hshort := span.length_lt_used
  have hused := span.used_le
  change buffer.filled - (buffer.scanned + span.used) < buffer.filled - buffer.scanned
  omega

theorem unread_keep_lt {buffer : Buffer} (span : buffer.Span) :
    (buffer.keep span).filled - (buffer.keep span).scanned < buffer.filled - buffer.scanned :=
  unread_skip_lt span

theorem front_skip (buffer : Buffer) (span : buffer.Span) :
    (buffer.skip span).front = buffer.front :=
  rfl

theorem pending_skip (buffer : Buffer) (span : buffer.Span) :
    (buffer.skip span).pending = buffer.pending.drop span.used := by
  simp only [pending, skip, List.drop_drop]

theorem front_keep (buffer : Buffer) (span : buffer.Span) :
    (buffer.keep span).front = buffer.front ++ (buffer.line span ++ [Line.lineFeed]) := by
  have hfits := kept_line_fits span
  have hused := span.used_le
  have hfilled := buffer.filled_le_length
  have hlength : (buffer.storage.overwrite (buffer.line span) buffer.kept).length =
      buffer.storage.length :=
    Octets.length_overwrite (by omega)
  have hfeed : (buffer.storageKeeping span).take
      (buffer.kept + (buffer.line span).length + [Line.lineFeed].length) =
        (buffer.storage.overwrite (buffer.line span) buffer.kept).take
          (buffer.kept + (buffer.line span).length) ++ [Line.lineFeed] :=
    Octets.take_overwrite_end (by rw [hlength]; omega)
  rw [Octets.take_overwrite_end (by omega), List.append_assoc] at hfeed
  exact hfeed

/-- Keeping a line leaves the unread bytes as they were, although it writes to the same storage. -/
theorem pending_keep (buffer : Buffer) (span : buffer.Span) :
    (buffer.keep span).pending = buffer.pending.drop span.used := by
  have hfits := kept_line_fits span
  have hused := span.used_le
  have hfilled := buffer.filled_le_length
  have hlength : (buffer.storage.overwrite (buffer.line span) buffer.kept).length =
      buffer.storage.length :=
    Octets.length_overwrite (by omega)
  have hunread : (buffer.storageKeeping span).drop (buffer.scanned + span.used) =
      buffer.storage.drop (buffer.scanned + span.used) := by
    rw [storageKeeping, Octets.drop_overwrite, Octets.drop_overwrite (by omega) (by omega)]
    · rw [hlength, List.length_singleton]
      omega
    · rw [List.length_singleton]
      omega
  simp only [pending, keep, List.drop_drop, List.drop_take]
  rw [hunread, Nat.sub_sub]

theorem front_compact (buffer : Buffer) : buffer.compact.front = buffer.front := by
  have hkept := buffer.kept_le_scanned
  have hscanned := buffer.scanned_le_filled
  have hfilled := buffer.filled_le_length
  exact Octets.take_overwrite (Nat.le_refl _) (by omega)

theorem pending_compact (buffer : Buffer) : buffer.compact.pending = buffer.pending := by
  have hkept := buffer.kept_le_scanned
  have hscanned := buffer.scanned_le_filled
  have hfilled := buffer.filled_le_length
  have hfront : (buffer.storage.take buffer.kept).length = buffer.kept := buffer.length_front
  have hmoved : (buffer.storage.overwrite buffer.pending buffer.kept).take
      (buffer.kept + buffer.pending.length) = buffer.storage.take buffer.kept ++ buffer.pending :=
    Octets.take_overwrite_end (by omega)
  rw [pending, compact, hmoved, List.drop_left' hfront]

theorem pending_discard (buffer : Buffer) : buffer.discard.pending = [] := by
  simp only [pending, discard, List.drop_eq_nil_iff, List.length_take]
  exact Nat.min_le_left _ _

end Buffer

end CellModem
