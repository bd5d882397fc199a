import CellModem.Proofs.Split
import CellModem.Reception

/-!
What taking in a response comes to, in terms of the lines of the byte stream and not of the buffer
they pass through. The kept bytes are the data lines so far, the pending bytes the unfinished rest,
and both are those of the whole stream, wherever the reads cut it.
-/

namespace CellModem

namespace Line

/-- No final result is among these lines. -/
def Undecided (command : Octets) (lines : List Octets) : Prop :=
  ∀ line ∈ lines, ∀ v, kind command line ≠ .verdict v

def dataLines (command : Octets) (lines : List Octets) : List Octets :=
  lines.filter fun line => kind command line = .data

/-- The data lines, each with a line feed behind it. -/
def body (command : Octets) (lines : List Octets) : Octets :=
  (dataLines command lines).flatMap fun line => line ++ [lineFeed]

/-- The data lines, separated by line feeds. -/
def payload (command : Octets) (lines : List Octets) : Octets :=
  [lineFeed].intercalate (dataLines command lines)

/-- The readings that report lines among these lines announce. -/
def reports (command : Octets) (lines : List Octets) : List Signal :=
  lines.flatMap fun line =>
    if kind command line = .notice then (Signal.ofLine? line).toList else []

/-- A response that ends with `verdict`, behind these lines. Its last line may lack its end. -/
def Concludes (command stream : Octets) (lines : List Octets) (verdict : Verdict) : Prop :=
  Undecided command lines ∧
    ((∃ final later, (split stream).1 = lines ++ final :: later ∧
        kind command final = .verdict verdict) ∨
      ((split stream).1 = lines ∧ openVerdict? (split stream).2 = some verdict))

/-- A response without a final result so far. -/
def Unended (command stream : Octets) : Prop :=
  Undecided command (split stream).1 ∧ openVerdict? (split stream).2 = none

/-- A response with its final result, and an unfinished line behind it. -/
def Cut (command stream : Octets) : Prop :=
  ¬ Undecided command (split stream).1 ∧ (split stream).2 ≠ []

theorem undecided_nil (command : Octets) : Undecided command [] := by
  intro line hline
  cases hline

theorem undecided_cons {command line : Octets} {lines : List Octets}
    (hline : ∀ v, kind command line ≠ .verdict v) (hlines : Undecided command lines) :
    Undecided command (line :: lines) := by
  intro other hother
  rcases List.mem_cons.mp hother with rfl | hlater
  · exact hline
  · exact hlines other hlater

theorem Undecided.append {command : Octets} {first second : List Octets}
    (hfirst : Undecided command first) (hsecond : Undecided command second) :
    Undecided command (first ++ second) := by
  intro line hline
  rcases List.mem_append.mp hline with h | h
  · exact hfirst line h
  · exact hsecond line h

theorem unended_nil (command : Octets) : Unended command [] :=
  ⟨undecided_nil command, by decide⟩

theorem Unended.not_cut {command stream : Octets} (h : Unended command stream) :
    ¬ Cut command stream :=
  fun hcut => hcut.1 h.1

/-- A response that has come to its final result is not without one. -/
theorem Concludes.not_unended {command stream : Octets} {lines : List Octets} {v : Verdict}
    (h : Concludes command stream lines v) : ¬ Unended command stream := by
  rintro ⟨hundecided, hopen⟩
  rcases h with ⟨-, ⟨final, later, hlines, hfinal⟩ | ⟨-, hrest⟩⟩
  · exact hundecided final (by simp [hlines]) v hfinal
  · rw [hrest] at hopen
    cases hopen

theorem body_append (command : Octets) (first second : List Octets) :
    body command (first ++ second) = body command first ++ body command second := by
  simp only [body, dataLines, List.filter_append, List.flatMap_append]

theorem body_cons_of_eq_data {command line : Octets} {lines : List Octets}
    (h : kind command line = .data) :
    body command (line :: lines) = line ++ [lineFeed] ++ body command lines := by
  simp [body, dataLines, h]

theorem body_cons_of_ne_data {command line : Octets} {lines : List Octets}
    (h : kind command line ≠ .data) : body command (line :: lines) = body command lines := by
  simp [body, dataLines, h]

theorem reports_cons_of_ne_notice {command line : Octets} {lines : List Octets}
    (h : kind command line ≠ .notice) : reports command (line :: lines) = reports command lines := by
  simp [reports, h]

theorem flatMap_dropLast (lines : List Octets) :
    (lines.flatMap fun line => line ++ [lineFeed]).dropLast = [lineFeed].intercalate lines := by
  induction lines with
  | nil => rfl
  | cons line lines ih =>
    cases lines with
    | nil => simp
    | cons next lines =>
      rw [List.flatMap_cons, List.dropLast_append_of_ne_nil (by simp), ih,
        List.intercalate_cons_cons, List.append_assoc]

/-- Without the line feed behind the last of them, the data lines are separated by line feeds. -/
theorem dropLast_body (command : Octets) (lines : List Octets) :
    (body command lines).dropLast = payload command lines :=
  flatMap_dropLast _

end Line

namespace Buffer

theorem split_of_nextLine?_eq_none {buffer : Buffer} (h : buffer.nextLine? = none) :
    Line.split buffer.pending = ([], buffer.pending) :=
  Line.split_of_next?_eq_none (nextLine?_eq_none h)

/-- Passing over the first line takes it off the lines of the pending bytes. -/
theorem split_of_nextLine? {buffer : Buffer} {span : buffer.Span}
    (h : buffer.nextLine? = some span) :
    Line.split buffer.pending =
      (buffer.line span :: (Line.split (buffer.skip span).pending).1,
        (Line.split (buffer.skip span).pending).2) := by
  obtain ⟨raw, hnext, hline⟩ := next?_of_nextLine? h
  rw [pending_skip, hline]
  exact Line.split_of_next? hnext

end Buffer

namespace Reception

open Line

/-- These lines of the bytes were gone through. Either they are all complete ones, or a final
result stands behind them. -/
def GoneThrough (command bytes : Octets) (lines : List Octets) (digest : Digest) : Prop :=
  (digest.verdict = none ∧ split bytes = (lines, digest.buffer.pending)) ∨
    ∃ final v, digest.verdict = some v ∧ kind command final = .verdict v ∧
      split bytes = (lines ++ final :: (split digest.buffer.pending).1,
        (split digest.buffer.pending).2)

theorem GoneThrough.cons {command bytes line later : Octets} {lines : List Octets}
    {digest : Digest} (h : GoneThrough command later lines digest)
    (hsplit : split bytes = (line :: (split later).1, (split later).2)) :
    GoneThrough command bytes (line :: lines) digest := by
  rcases h with ⟨hnone, hall⟩ | ⟨final, v, hsome, hkind, hall⟩
  · exact Or.inl ⟨hnone, by rw [hsplit, hall]⟩
  · exact Or.inr ⟨final, v, hsome, hkind, by rw [hsplit, hall, List.cons_append]⟩

/-- Going through the lines of a buffer keeps the data lines in front of the first final result,
and reads the reports among them. -/
theorem digest_lines (command : Octets) (buffer : Buffer) :
    ∃ lines, Undecided command lines ∧
      (digest command buffer).buffer.front = buffer.front ++ body command lines ∧
      (digest command buffer).signals = reports command lines ∧
      GoneThrough command buffer.pending lines (digest command buffer) := by
  fun_induction digest command buffer with
  | case1 buffer hnone =>
    refine ⟨[], undecided_nil command, (List.append_nil _).symm, rfl, Or.inl ⟨rfl, ?_⟩⟩
    exact Buffer.split_of_nextLine?_eq_none hnone
  | case2 buffer span hspan v hkind =>
    refine ⟨[], undecided_nil command, (List.append_nil _).symm, rfl, Or.inr ?_⟩
    exact ⟨buffer.line span, v, rfl, hkind, Buffer.split_of_nextLine? hspan⟩
  | case3 buffer span hspan hkind later ih =>
    obtain ⟨lines, hlines, hfront, hsignals, hrest⟩ := ih
    refine ⟨buffer.line span :: lines, undecided_cons (by simp [hkind]) hlines, ?_, ?_,
      hrest.cons (Buffer.split_of_nextLine? hspan)⟩
    · rw [hfront, Buffer.front_skip, body_cons_of_ne_data (by simp [hkind])]
    · simp [later, hsignals, reports, hkind]
  | case4 buffer span hspan hkind ih =>
    obtain ⟨lines, hlines, hfront, hsignals, hrest⟩ := ih
    rw [Buffer.pending_keep, ← Buffer.pending_skip] at hrest
    refine ⟨buffer.line span :: lines, undecided_cons (by simp [hkind]) hlines, ?_, ?_,
      hrest.cons (Buffer.split_of_nextLine? hspan)⟩
    · rw [hfront, Buffer.front_keep, body_cons_of_eq_data hkind, List.append_assoc]
    · rw [hsignals, reports_cons_of_ne_notice (by simp [hkind])]
  | case5 buffer span hspan hkind ih
  | case6 buffer span hspan hkind ih =>
    obtain ⟨lines, hlines, hfront, hsignals, hrest⟩ := ih
    refine ⟨buffer.line span :: lines, undecided_cons (by simp [hkind]) hlines, ?_, ?_,
      hrest.cons (Buffer.split_of_nextLine? hspan)⟩
    · rw [hfront, Buffer.front_skip, body_cons_of_ne_data (by simp [hkind])]
    · rw [hsignals, reports_cons_of_ne_notice (by simp [hkind])]

theorem length_storage_digest (command : Octets) (buffer : Buffer) :
    (digest command buffer).buffer.storage.length = buffer.storage.length := by
  fun_induction digest command buffer with
  | case1 => rfl
  | case2 => rfl
  | case3 buffer span hspan hkind later ih => exact ih
  | case4 buffer span hspan hkind ih => exact ih.trans (Buffer.length_storageKeeping span)
  | case5 buffer span hspan hkind ih => exact ih
  | case6 buffer span hspan hkind ih => exact ih

/-- Draining leaves the unfinished rest. -/
theorem pending_drain (buffer : Buffer) :
    (drain buffer).2.pending = (split buffer.pending).2 := by
  fun_induction drain buffer with
  | case1 buffer hnone => rw [Buffer.split_of_nextLine?_eq_none hnone]
  | case2 buffer span hspan later left hdrain hkind ih
  | case3 buffer span hspan later left hdrain hkind ih
  | case4 buffer span hspan later left hdrain hkind ih
  | case5 buffer span hspan later left hdrain v hkind ih
  | case6 buffer span hspan later left hdrain hkind ih =>
    rw [hdrain] at ih
    rw [Buffer.split_of_nextLine? hspan]
    exact ih

theorem payload_eq_dropLast (buffer : Buffer) : payload buffer = buffer.front.dropLast := by
  rw [List.dropLast_eq_take, Buffer.length_front, Buffer.front, List.take_take,
    Nat.min_eq_left (Nat.sub_le _ _)]
  rfl

/-- The buffer holds what a response amounts to of which `stream` has come in, and which has not
ended with it. -/
structure Taken (command stream : Octets) (buffer : Buffer) : Prop where
  unended : Unended command stream
  front_eq : buffer.front = body command (split stream).1
  pending_eq : buffer.pending = (split stream).2
  compact : buffer.scanned = buffer.kept

theorem taken_empty (command : Octets) (size : Nat) : Taken command [] (.empty size) where
  unended := unended_nil command
  front_eq := rfl
  pending_eq := rfl
  compact := rfl

/-- What is left of the room goes down by what the data lines and the rest take up. -/
theorem Taken.room_add {command stream : Octets} {buffer : Buffer}
    (h : Taken command stream buffer) :
    buffer.room + ((body command (split stream).1).length + (split stream).2.length) =
      buffer.storage.length := by
  have hscanned := buffer.scanned_le_filled
  have hfilled := buffer.filled_le_length
  have hcompact := h.compact
  rw [← h.front_eq, ← h.pending_eq, Buffer.length_front, Buffer.length_pending, Buffer.room]
  omega

theorem split_append_chunk {command stream : Octets} {buffer : Buffer}
    (h : Taken command stream buffer) (chunk : Chunk buffer.room) :
    split (stream ++ chunk.val) =
      ((split stream).1 ++ (split (buffer.fill chunk).pending).1,
        (split (buffer.fill chunk).pending).2) := by
  rw [Buffer.pending_fill, h.pending_eq]
  exact split_append stream chunk.val

/-- One more read keeps the buffer in step with the stream, unless the response ends with it. -/
theorem taken_of_absorb {command stream : Octets} {buffer next : Buffer}
    {chunk : Chunk buffer.room} {signals : List Signal} (h : Taken command stream buffer)
    (habsorb : absorb command buffer chunk = (.unfinished next, signals)) :
    Taken command (stream ++ chunk.val) next ∧ next.storage.length = buffer.storage.length := by
  obtain ⟨lines, hlines, hfront, hsignals, hrest⟩ := digest_lines command (buffer.fill chunk)
  have hlength := length_storage_digest command (buffer.fill chunk)
  have hsplit := split_append_chunk h chunk
  unfold absorb at habsorb
  cases hdigest : digest command (buffer.fill chunk) with
  | mk left reports verdict =>
    rw [hdigest] at hfront hrest hlength
    rw [hdigest] at habsorb
    cases verdict with
    | some v => cases habsorb
    | none =>
      rcases hrest with ⟨-, hall⟩ | ⟨final, v, hsome, -⟩
      · cases hopen : openVerdict? left.pending with
        | some v => simp [hopen] at habsorb
        | none =>
          simp only [hopen, Prod.mk.injEq, Outcome.unfinished.injEq] at habsorb
          obtain ⟨rfl, rfl⟩ := habsorb
          rw [hall] at hsplit
          refine ⟨⟨⟨?_, ?_⟩, ?_, ?_, rfl⟩, ?_⟩
          · rw [hsplit]
            exact h.unended.1.append hlines
          · rw [hsplit]
            exact hopen
          · rw [hsplit, Buffer.front_compact, hfront, Buffer.front_fill, h.front_eq, body_append]
          · rw [hsplit, Buffer.pending_compact]
          · rw [Buffer.length_storage_compact, hlength, Buffer.length_storage_fill]
      · cases hsome

/-- A response that ends with a read amounts to the data lines in front of the final result. -/
theorem concludes_of_absorb {command stream : Octets} {buffer : Buffer}
    {chunk : Chunk buffer.room} {ending : Ending} {signals : List Signal}
    (h : Taken command stream buffer)
    (habsorb : absorb command buffer chunk = (.ended ending, signals)) :
    ∃ lines, Concludes command (stream ++ chunk.val) lines ending.verdict ∧
      ending.payload = Line.payload command lines ∧
      (ending.cut = true ↔ Cut command (stream ++ chunk.val)) := by
  obtain ⟨lines, hlines, hfront, hsignals, hrest⟩ := digest_lines command (buffer.fill chunk)
  have hsplit := split_append_chunk h chunk
  unfold absorb at habsorb
  cases hdigest : digest command (buffer.fill chunk) with
  | mk left reports verdict =>
    rw [hdigest] at hfront hrest habsorb
    have hpayload : payload left = Line.payload command ((split stream).1 ++ lines) := by
      rw [payload_eq_dropLast, hfront, Buffer.front_fill, h.front_eq, ← body_append, dropLast_body]
    refine ⟨(split stream).1 ++ lines, ?_⟩
    rcases hrest with ⟨hnone, hall⟩ | ⟨final, v, hsome, hkind, hall⟩
    · cases hnone
      cases hopen : openVerdict? left.pending with
      | none => simp [hopen] at habsorb
      | some v =>
        simp only [hopen, Prod.mk.injEq, Outcome.ended.injEq] at habsorb
        obtain ⟨rfl, -⟩ := habsorb
        rw [hall] at hsplit
        have hundecided : Undecided command (split (stream ++ chunk.val)).1 := by
          rw [hsplit]
          exact h.unended.1.append hlines
        refine ⟨⟨h.unended.1.append hlines, Or.inr ?_⟩, hpayload, Bool.noConfusion,
          fun hcut => absurd hundecided hcut.1⟩
        rw [hsplit]
        exact ⟨rfl, hopen⟩
    · cases hsome
      simp only [Prod.mk.injEq, Outcome.ended.injEq] at habsorb
      obtain ⟨rfl, -⟩ := habsorb
      rw [hall] at hsplit
      refine ⟨⟨h.unended.1.append hlines, Or.inl ⟨final, (split left.pending).1, ?_, hkind⟩⟩,
        hpayload, ?_⟩
      · rw [hsplit, List.append_assoc]
      · have hdecided : ¬ Undecided command (split (stream ++ chunk.val)).1 := by
          rw [hsplit]
          exact fun hundecided => hundecided final (by simp) v hkind
        rw [Cut, and_iff_right hdecided, hsplit, ← pending_drain]
        simp

end Reception

end CellModem
