import CellModem.Cursor
import CellModem.Proofs.Leftover

/-!
No slice, index or move on a buffer reaches outside its storage: what is done with bare indices, and
checked, comes about wherever the indices are those of a buffer, and comes to the same.
-/

namespace CellModem

namespace Octets

theorem slice?_eq {bytes : Octets} {start stop : Nat} (horder : start ≤ stop)
    (hstop : stop ≤ bytes.length) :
    bytes.slice? start stop = some ((bytes.take stop).drop start) :=
  if_pos ⟨horder, hstop⟩

theorem write?_eq {bytes news : Octets} {start : Nat}
    (h : start + news.length ≤ bytes.length) :
    bytes.write? start news = some (bytes.overwrite news start) :=
  if_pos h

/-- To write one byte is to write over it. -/
theorem store?_eq {bytes : Octets} {index : Nat} (h : index < bytes.length) (b : UInt8) :
    bytes.store? index b = some (bytes.overwrite [b] index) := by
  rw [store?, if_pos h, overwrite, List.set_eq_take_append_cons_drop, if_pos h,
    List.append_assoc, List.singleton_append, List.length_singleton]

/-- Nothing changes where bytes are written over with themselves. -/
theorem overwrite_self {bytes : Octets} {start stop : Nat} (horder : start ≤ stop)
    (hstop : stop ≤ bytes.length) :
    bytes.overwrite ((bytes.take stop).drop start) start = bytes := by
  have hlength : start + ((bytes.take stop).drop start).length = stop := by
    rw [List.length_drop, List.length_take]
    omega
  have hfront : bytes.take start = (bytes.take stop).take start := by
    rw [List.take_take, Nat.min_eq_left horder]
  rw [overwrite, hlength, hfront, List.take_append_drop, List.take_append_drop]

end Octets

namespace Buffer

variable (buffer : Buffer)

theorem check?_cursor : buffer.cursor.check? = some buffer :=
  dif_pos ⟨buffer.kept_le_scanned, buffer.scanned_le_filled, buffer.filled_le_length⟩

theorem slice?_pending :
    buffer.storage.slice? buffer.scanned buffer.filled = some buffer.pending :=
  Octets.slice?_eq buffer.scanned_le_filled buffer.filled_le_length

/-- A line stands where the unread bytes begin. -/
theorem slice?_line (span : buffer.Span) :
    buffer.storage.slice? buffer.scanned (buffer.scanned + span.length) =
      some (buffer.line span) := by
  have hused := span.used_le
  have hshort := span.length_lt_used
  have hfilled := buffer.filled_le_length
  rw [Octets.slice?_eq (Nat.le_add_right _ _) (by omega), line, pending, List.drop_take,
    List.drop_take, List.take_take, Nat.add_sub_cancel_left, Nat.min_eq_left (by omega)]

def Span.found {buffer : Buffer} (span : buffer.Span) : Cursor.Found :=
  { line := buffer.line span, used := span.used }

/-- The next line with all the bytes that it takes up. -/
theorem exists_raw_of_nextLine? {buffer : Buffer} {span : buffer.Span}
    (h : buffer.nextLine? = some span) :
    ∃ raw, Line.next? buffer.pending = some (raw, (buffer.skip span).pending) ∧
      raw.length + 1 = span.used ∧ Line.chomp raw = buffer.line span := by
  obtain ⟨raw, hnext, hline⟩ := next?_of_nextLine? h
  refine ⟨raw, by rw [pending_skip]; exact hnext, ?_, hline.symm⟩
  have hbytes := Line.length_of_next? hnext
  have hle := used_le_pending span
  rw [List.length_drop] at hbytes
  omega

/-- What is looked for with bare indices is the next line. -/
theorem look?_cursor :
    buffer.cursor.look? = some (buffer, buffer.nextLine?.map Span.found) := by
  have hunread : buffer.cursor.storage.slice? buffer.cursor.scan buffer.cursor.filled =
      some buffer.pending := buffer.slice?_pending
  simp only [Cursor.look?, check?_cursor, hunread, Option.bind_eq_bind, Option.bind_some]
  cases hspan : buffer.nextLine? with
  | none =>
    rw [nextLine?_eq_none hspan]
    rfl
  | some span =>
    obtain ⟨raw, hnext, hused, hline⟩ := exists_raw_of_nextLine? hspan
    have hlength : (Line.chomp raw).length = span.length := by rw [hline, length_line]
    have hslice : buffer.cursor.storage.slice? buffer.cursor.scan
        (buffer.cursor.scan + span.length) = some (buffer.line span) := buffer.slice?_line span
    rw [hnext]
    simp only [hlength, hslice, hused, Option.bind_some]
    rfl

theorem room?_cursor (hroom : buffer.room ≠ 0) : buffer.cursor.room? = some buffer.room := by
  unfold room at hroom
  exact if_pos (by change buffer.filled < buffer.storage.length; omega)

theorem filled_eq_length_iff : buffer.filled = buffer.storage.length ↔ buffer.room = 0 := by
  have hfilled := buffer.filled_le_length
  unfold room
  omega

theorem fill?_cursor (chunk : Chunk buffer.room) :
    buffer.cursor.fill? chunk.val = some (buffer.fill chunk).cursor := by
  have hroom := chunk.property
  have hfilled := buffer.filled_le_length
  unfold room at hroom
  have hwrite : buffer.cursor.storage.write? buffer.cursor.filled chunk.val =
      some (buffer.storage.overwrite chunk.val buffer.filled) :=
    Octets.write?_eq (by change buffer.filled + _ ≤ buffer.storage.length; omega)
  simp only [Cursor.fill?, hwrite, Option.bind_eq_bind, Option.bind_some]
  rfl

/-- A line that is kept is written over bytes that have been looked at. -/
theorem keep?_cursor (span : buffer.Span) :
    buffer.cursor.keep? span.found = some (buffer.keep span).cursor := by
  have hfits := kept_line_fits span
  have hused := span.used_le
  have hfilled := buffer.filled_le_length
  have hlength := length_line span
  have hline := buffer.slice?_line span
  have hmove : buffer.storage.copyWithin? buffer.scanned
      (buffer.scanned + (buffer.line span).length) buffer.kept =
        some (buffer.storage.overwrite (buffer.line span) buffer.kept) := by
    rw [Octets.copyWithin?, hlength, hline]
    exact Octets.write?_eq (by omega)
  have hfeed : (buffer.storage.overwrite (buffer.line span) buffer.kept).store?
      (buffer.kept + (buffer.line span).length) Line.lineFeed = some (buffer.storageKeeping span) :=
    Octets.store?_eq (by rw [Octets.length_overwrite (by omega)]; omega) _
  change (if buffer.kept + (buffer.line span).length + 1 ≤ buffer.scanned + span.used then _
    else _) = _
  rw [if_pos hfits]
  simp only [cursor, Span.found, hmove, hfeed, Option.bind_eq_bind, Option.bind_some]
  rfl

theorem compact?_cursor : buffer.cursor.compact? = some buffer.compact.cursor := by
  have hkept := buffer.kept_le_scanned
  have hscanned := buffer.scanned_le_filled
  have hfilled := buffer.filled_le_length
  have hpending := buffer.length_pending
  change (if buffer.kept < buffer.scanned then _ else _) = _
  split
  case isTrue hgap =>
    have hmove : buffer.storage.copyWithin? buffer.scanned buffer.filled buffer.kept =
        some (buffer.storage.overwrite buffer.pending buffer.kept) := by
      rw [Octets.copyWithin?, slice?_pending]
      exact Octets.write?_eq (by omega)
    have hcount : buffer.filled - (buffer.scanned - buffer.kept) =
        buffer.kept + buffer.pending.length := by omega
    simp only [cursor, hmove, hcount, Option.bind_eq_bind, Option.bind_some]
    rfl
  case isFalse hgap =>
    have hsame : buffer.kept = buffer.scanned := by omega
    have hstorage : buffer.storage.overwrite buffer.pending buffer.kept = buffer.storage := by
      rw [hsame]
      exact Octets.overwrite_self hscanned hfilled
    have hcount : buffer.kept + buffer.pending.length = buffer.filled := by omega
    simp only [cursor, compact, hstorage, hcount, ← hsame]

end Buffer

namespace Cursor

section

variable {buffer : Buffer} {span : buffer.Span}

theorem look?_of_none (h : buffer.nextLine? = none) :
    buffer.cursor.look? = some (buffer, none) := by
  rw [buffer.look?_cursor, h, Option.map_none]

theorem look?_of_span (h : buffer.nextLine? = some span) :
    buffer.cursor.look? = some (buffer, some span.found) := by
  rw [buffer.look?_cursor, h, Option.map_some]

theorem digest?_of_none (command : Octets) (h : buffer.nextLine? = none) :
    digest? command buffer.cursor = some { buffer } := by
  have hlook := look?_of_none h
  rw [digest?]
  split <;> simp_all

theorem digest?_of_span (command : Octets) (h : buffer.nextLine? = some span) :
    digest? command buffer.cursor =
      match Line.kind command (buffer.line span) with
      | .verdict v => some { buffer := buffer.skip span, verdict := some v }
      | .notice =>
        (digest? command (buffer.skip span).cursor).map fun later =>
          { later with signals := (Signal.ofLine? (buffer.line span)).toList ++ later.signals }
      | .data => digest? command (buffer.keep span).cursor
      | .blank | .echo => digest? command (buffer.skip span).cursor := by
  have hlook := look?_of_span h
  have hskip := (buffer.skip span).check?_cursor
  rw [digest?]
  split
  case h_1 hnone => cases hlook.symm.trans hnone
  case h_2 other hother => cases hlook.symm.trans hother
  case h_3 other found hfound =>
    cases hlook.symm.trans hfound
    dsimp only [Buffer.Span.found]
    cases Line.kind command (buffer.line span) with
    | verdict v => exact congrArg (Option.map _) hskip
    | data =>
      dsimp only
      split
      case h_1 hkeep => cases (buffer.keep?_cursor span).symm.trans hkeep
      case h_2 next hkeep =>
        cases (buffer.keep?_cursor span).symm.trans hkeep
        rfl
    | notice => rfl
    | blank => rfl
    | echo => rfl

theorem drain?_of_none (h : buffer.nextLine? = none) :
    drain? buffer.pending = some ([], buffer.pending) := by
  have hnext := Buffer.nextLine?_eq_none h
  rw [drain?]
  split
  case h_1 => rfl
  case h_2 hfound => cases hnext.symm.trans hfound

theorem drain?_of_span (h : buffer.nextLine? = some span) :
    drain? buffer.pending =
      (drain? (buffer.skip span).pending).map fun (signals, left) =>
        match Line.idleKind (buffer.line span) with
        | .notice => ((Signal.ofLine? (buffer.line span)).toList ++ signals, left)
        | .blank | .echo | .verdict _ | .data => (signals, left) := by
  obtain ⟨raw, hnext, hused, hline⟩ := Buffer.exists_raw_of_nextLine? h
  have hlater : buffer.pending.slice? (raw.length + 1) buffer.pending.length =
      some (buffer.skip span).pending := by
    rw [hused, Octets.slice?_eq (Buffer.used_le_pending span) (Nat.le_refl _), List.take_length,
      Buffer.pending_skip]
  rw [drain?, ← hline]
  split
  case h_1 hnone => cases hnext.symm.trans hnone
  case h_2 raw' behind hfound =>
    cases hnext.symm.trans hfound
    split
    case h_1 hnone => cases hlater.symm.trans hnone
    case h_2 later hfound =>
      cases hlater.symm.trans hfound
      rfl

theorem sift?_of_none (alignment : Alignment) (h : buffer.nextLine? = none) :
    sift? alignment buffer.cursor = some ({ alignment, buffer }, []) := by
  have hlook := look?_of_none h
  rw [sift?]
  split <;> simp_all

theorem sift?_of_span (alignment : Alignment) (h : buffer.nextLine? = some span) :
    sift? alignment buffer.cursor =
      match alignment, Line.idleKind (buffer.line span) with
      | .midLine, _ => sift? .aligned (buffer.skip span).cursor
      | alignment, .notice =>
        (sift? alignment (buffer.skip span).cursor).map fun (purge, later) =>
          (purge, (Signal.ofLine? (buffer.line span)).toList ++ later)
      | _, .verdict _ => sift? .aligned (buffer.skip span).cursor
      | alignment, .blank | alignment, .echo | alignment, .data =>
        sift? alignment (buffer.skip span).cursor := by
  have hlook := look?_of_span h
  rw [sift?]
  split
  case h_1 hnone => cases hlook.symm.trans hnone
  case h_2 other hother => cases hlook.symm.trans hother
  case h_3 other found hfound =>
    cases hlook.symm.trans hfound
    rfl

theorem dispatch?_of_none (h : buffer.nextLine? = none) :
    dispatch? buffer.cursor =
      some { signals := [], dropped := if buffer.pending.isEmpty then 0 else 1 } := by
  have hlook := look?_of_none h
  have hleft : buffer.scanned < buffer.filled ↔ buffer.pending.isEmpty = false := by
    rw [List.isEmpty_eq_false_iff, ← List.length_pos_iff, buffer.length_pending]
    omega
  rw [dispatch?]
  split
  case h_1 hnone => cases hlook.symm.trans hnone
  case h_2 other hother =>
    change some (Listener.Dispatch.mk [] (if buffer.scanned < buffer.filled then 1 else 0)) = _
    cases hempty : buffer.pending.isEmpty <;> simp [hleft, hempty]
  case h_3 other found hfound => cases hlook.symm.trans hfound

theorem dispatch?_of_span (h : buffer.nextLine? = some span) :
    dispatch? buffer.cursor =
      (dispatch? (buffer.skip span).cursor).map fun later =>
        match Line.idleKind (buffer.line span) with
        | .blank => later
        | .notice =>
          match Signal.ofLine? (buffer.line span) with
          | some signal => { later with signals := signal :: later.signals }
          | none => { later with dropped := later.dropped + 1 }
        | .echo | .verdict _ | .data => { later with dropped := later.dropped + 1 } := by
  have hlook := look?_of_span h
  rw [dispatch?]
  split
  case h_1 hnone => cases hlook.symm.trans hnone
  case h_2 other hother => cases hlook.symm.trans hother
  case h_3 other found hfound =>
    cases hlook.symm.trans hfound
    rfl

end

/-- Going through the lines of a response stays within the storage. -/
theorem digest?_cursor (command : Octets) (buffer : Buffer) :
    digest? command buffer.cursor = some (Reception.digest command buffer) := by
  fun_induction Reception.digest command buffer with
  | case1 buffer hnone => exact digest?_of_none command hnone
  | case2 buffer span hspan v hkind => simp only [digest?_of_span command hspan, hkind]
  | case3 buffer span hspan hkind later ih =>
    simp only [digest?_of_span command hspan, hkind, ih, Option.map_some]
    rfl
  | case4 buffer span hspan hkind ih
  | case5 buffer span hspan hkind ih
  | case6 buffer span hspan hkind ih => simp only [digest?_of_span command hspan, hkind, ih]

/-- So does going through those behind the final result. -/
theorem drain?_pending (buffer : Buffer) :
    drain? buffer.pending =
      some ((Reception.drain buffer).1, (Reception.drain buffer).2.pending) := by
  fun_induction Reception.drain buffer with
  | case1 buffer hnone => exact drain?_of_none hnone
  | case2 buffer span hspan later left hdrain hkind ih
  | case3 buffer span hspan later left hdrain hkind ih
  | case4 buffer span hspan later left hdrain hkind ih
  | case5 buffer span hspan later left hdrain v hkind ih
  | case6 buffer span hspan later left hdrain hkind ih =>
    simp only [drain?_of_span hspan, ih, hdrain, hkind, Option.map_some]

/-- Taking in a read in the course of a command stays within the storage. -/
theorem receive?_cursor (command : Octets) (buffer : Buffer) (chunk : Chunk buffer.room) :
    buffer.cursor.receive? command chunk.val = some (Reception.absorb command buffer chunk) := by
  -- without the line feed behind the last line that was kept
  have hpayload (left : Buffer) :
      left.storage.slice? 0 (left.kept - 1) = some (Reception.payload left) := by
    have hkept := left.kept_le_scanned
    have hscanned := left.scanned_le_filled
    have hfilled := left.filled_le_length
    exact Octets.slice?_eq (Nat.zero_le _) (by omega)
  unfold receive? Reception.absorb
  simp only [Buffer.fill?_cursor, digest?_cursor, Buffer.slice?_pending, hpayload,
    Option.bind_eq_bind, Option.bind_some, Option.pure_def]
  cases (Reception.digest command (buffer.fill chunk)).verdict with
  | some verdict =>
    simp only [drain?_pending, Option.bind_some]
  | none =>
    simp only
    cases Line.openVerdict? (Reception.digest command (buffer.fill chunk)).buffer.pending with
    | some verdict => rfl
    | none => simp only [Buffer.compact?_cursor, Buffer.check?_cursor, Option.bind_some]

/-- Going through lines that nobody waits for stays within the storage. -/
theorem sift?_cursor (alignment : Alignment) (buffer : Buffer) :
    sift? alignment buffer.cursor = some (Purge.sift alignment buffer) := by
  fun_induction Purge.sift alignment buffer with
  | case1 alignment buffer hnone => exact sift?_of_none alignment hnone
  | case2 buffer span hspan ih =>
    rw [sift?_of_span .midLine hspan]
    exact ih
  | case3 buffer span hspan alignment halignment hkind purge later hsift ih =>
    rw [sift?_of_span alignment hspan]
    cases alignment with
    | midLine => exact absurd rfl halignment
    | aligned | awaitingVerdict => simp only [hkind, ih, hsift, Option.map_some]
  | case4 alignment buffer span hspan v hkind halignment ih =>
    rw [sift?_of_span alignment hspan]
    cases alignment with
    | midLine => exact absurd rfl halignment
    | aligned | awaitingVerdict => simp only [hkind, ih]
  | case5 buffer span hspan alignment halignment hkind ih
  | case6 buffer span hspan alignment halignment hkind ih
  | case7 buffer span hspan alignment halignment hkind ih =>
    rw [sift?_of_span alignment hspan]
    cases alignment with
    | midLine => exact absurd rfl halignment
    | aligned | awaitingVerdict => simp only [hkind, ih]

/-- Going through the lines of a sweep stays within the storage. -/
theorem dispatch?_cursor (buffer : Buffer) :
    dispatch? buffer.cursor = some (Listener.Dispatch.ofBuffer buffer) := by
  fun_induction Listener.Dispatch.ofBuffer buffer with
  | case1 buffer hnone => exact dispatch?_of_none hnone
  | case3 buffer span hspan later hkind signal hsignal ih =>
    simp only [dispatch?_of_span hspan, hkind, ih, hsignal, Option.map_some]
    rfl
  | case4 buffer span hspan later hkind hsignal ih =>
    simp only [dispatch?_of_span hspan, hkind, ih, hsignal, Option.map_some]
    rfl
  | case2 buffer span hspan later hkind ih
  | case5 buffer span hspan later hkind ih
  | case6 buffer span hspan later v hkind ih
  | case7 buffer span hspan later hkind ih =>
    simp only [dispatch?_of_span hspan, hkind, ih, Option.map_some]
    rfl

end Cursor

/-- Nothing of what was read has been looked at, or moved. -/
structure Buffer.Untouched (buffer : Buffer) : Prop where
  kept_eq : buffer.kept = 0
  scanned_eq : buffer.scanned = 0

namespace Buffer

theorem untouched_empty (size : Nat) : (empty size).Untouched :=
  ⟨rfl, rfl⟩

theorem room_empty (size : Nat) : (empty size).room = size := by
  rw [room, empty, List.length_replicate, Nat.sub_zero]

theorem Untouched.fill {buffer : Buffer} (h : buffer.Untouched) (chunk : Chunk buffer.room) :
    (buffer.fill chunk).Untouched :=
  ⟨h.kept_eq, h.scanned_eq⟩

/-- With nothing kept, what is unread is moved to the front, or dropped if it fills the storage. -/
theorem untouched_of_compact {buffer : Buffer} (hkept : buffer.kept = 0)
    (hsize : buffer.storage.length ≠ 0) :
    let left := if buffer.compact.room = 0 then buffer.compact.discard else buffer.compact
    left.Untouched ∧ left.room ≠ 0 := by
  have hstart : buffer.compact.kept = 0 := hkept
  have hlength := length_storage_compact buffer
  intro left
  by_cases hfull : buffer.compact.room = 0
  · have hleft : left = buffer.compact.discard := if_pos hfull
    rw [hleft]
    refine ⟨⟨hstart, hstart⟩, ?_⟩
    change buffer.compact.storage.length - buffer.compact.kept ≠ 0
    omega
  · have hleft : left = buffer.compact := if_neg hfull
    rw [hleft]
    exact ⟨⟨hstart, hstart⟩, hfull⟩

theorem Untouched.cursor_eq {buffer : Buffer} (h : buffer.Untouched) :
    buffer.cursor = { storage := buffer.storage, filled := buffer.filled } := by
  rw [cursor, h.kept_eq, h.scanned_eq]

theorem Untouched.slice?_eq {buffer : Buffer} (h : buffer.Untouched) :
    buffer.storage.slice? 0 buffer.filled = some buffer.pending := by
  rw [← slice?_pending, h.scanned_eq]

/-- With nothing kept, what is unread is moved to the front of the storage. -/
theorem copyWithin?_front {buffer : Buffer} (hkept : buffer.kept = 0) :
    buffer.storage.copyWithin? buffer.scanned buffer.filled 0 = some buffer.compact.storage := by
  have hfilled := buffer.filled_le_length
  have hpending := buffer.length_pending
  have hstorage : buffer.compact.storage = buffer.storage.overwrite buffer.pending 0 :=
    congrArg (buffer.storage.overwrite buffer.pending) hkept
  rw [Octets.copyWithin?, slice?_pending, hstorage]
  exact Octets.write?_eq (by omega)

/-- It is dropped there if it fills the storage. -/
theorem cursor_of_compact {buffer : Buffer} (hkept : buffer.kept = 0) :
    let left := if buffer.compact.room = 0 then buffer.compact.discard else buffer.compact
    let unread := buffer.filled - buffer.scanned
    let filled := if unread = buffer.compact.storage.length then 0 else unread
    left.cursor = { storage := buffer.compact.storage, filled } := by
  have hstart : buffer.compact.kept = 0 := hkept
  have hmoved : buffer.compact.filled = buffer.filled - buffer.scanned := by
    rw [← length_pending]
    change buffer.kept + _ = _
    rw [hkept, Nat.zero_add]
  have hfilled := buffer.compact.filled_le_length
  have hroom : buffer.compact.room = 0 ↔
      buffer.filled - buffer.scanned = buffer.compact.storage.length := by
    unfold room
    omega
  intro left unread filled
  by_cases hfull : buffer.compact.room = 0
  · have hleft : left = buffer.compact.discard := if_pos hfull
    have hcount : filled = 0 := if_pos (hroom.mp hfull)
    rw [hleft, hcount]
    change Cursor.mk buffer.compact.storage buffer.compact.kept buffer.compact.kept
      buffer.compact.kept = _
    rw [hstart]
  · have hleft : left = buffer.compact := if_neg hfull
    have hcount : filled = buffer.compact.filled := (if_neg (hfull ∘ hroom.mpr)).trans hmoved.symm
    rw [hleft, hcount]
    change Cursor.mk _ buffer.compact.kept buffer.compact.kept _ = _
    rw [hstart]

end Buffer

namespace Purge

variable {purge : Purge}

/-- There is room again once the bytes of a read are gone through. -/
theorem absorb_untouched (h : purge.buffer.Untouched) (hroom : purge.buffer.room ≠ 0)
    (chunk : Chunk purge.buffer.room) :
    (purge.absorb chunk).1.buffer.Untouched ∧ (purge.absorb chunk).1.buffer.room ≠ 0 := by
  obtain ⟨hkept, hstorage⟩ := sift_storage purge.alignment (purge.buffer.fill chunk)
  have hlength := Buffer.length_storage_fill purge.buffer chunk
  unfold Buffer.room at hroom
  apply Buffer.untouched_of_compact (hkept.trans h.kept_eq)
  rw [hstorage, hlength]
  omega

/-- Taking in a read while realigning stays within the storage. -/
theorem discard?_cursor (h : purge.buffer.Untouched) (chunk : Chunk purge.buffer.room) :
    purge.buffer.cursor.discard? purge.alignment chunk.val = some (purge.absorb chunk) := by
  obtain ⟨hkept, -⟩ := sift_storage purge.alignment (purge.buffer.fill chunk)
  have hsift := Cursor.sift?_cursor purge.alignment (purge.buffer.fill chunk)
  have hmove := Buffer.copyWithin?_front (hkept.trans h.kept_eq)
  have hcursor := Buffer.cursor_of_compact (hkept.trans h.kept_eq)
  simp only [Cursor.discard?, Buffer.fill?_cursor, hsift, hmove, ← hcursor, Buffer.check?_cursor,
    Option.bind_eq_bind, Option.bind_some]
  rfl

end Purge

end CellModem
