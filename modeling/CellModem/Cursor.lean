import CellModem.System

/-!
The work on the buffers with bare indices, as a machine does it. What the type of a buffer says of
its indices is checked here wherever a line is looked for, and every slice, index and move has to be
within the storage; otherwise there is no result. Nor is there one of a read into no room at all,
which would yield no bytes and could not be told from the end of the stream.
-/

namespace CellModem

namespace Octets

/-- The bytes from `start` up to `stop`. -/
def slice? (bytes : Octets) (start stop : Nat) : Option Octets :=
  if start ≤ stop ∧ stop ≤ bytes.length then some ((bytes.take stop).drop start) else none

theorem length_of_slice? {bytes cut : Octets} {start stop : Nat}
    (h : bytes.slice? start stop = some cut) :
    cut.length = stop - start := by
  unfold slice? at h
  split at h
  case isTrue hbounds =>
    cases h
    rw [List.length_drop, List.length_take]
    omega
  case isFalse => cases h

/-- Write one byte. -/
def store? (bytes : Octets) (index : Nat) (b : UInt8) : Option Octets :=
  if index < bytes.length then some (bytes.set index b) else none

/-- Write some bytes from `start` on. -/
def write? (bytes : Octets) (start : Nat) (news : Octets) : Option Octets :=
  if start + news.length ≤ bytes.length then some (bytes.overwrite news start) else none

/-- Copy the bytes from `start` up to `stop` to where `target` is. -/
def copyWithin? (bytes : Octets) (start stop target : Nat) : Option Octets := do
  let moved ← bytes.slice? start stop
  bytes.write? target moved

end Octets

/-- A buffer about whose indices nothing is known. -/
structure Cursor where
  storage : Octets
  /-- How many bytes at the front stay. -/
  out : Nat := 0
  /-- Where the bytes begin that nobody has looked at. -/
  scan : Nat := 0
  /-- Where they end. -/
  filled : Nat := 0
  deriving DecidableEq, Repr

def Buffer.cursor (buffer : Buffer) : Cursor :=
  { storage := buffer.storage, out := buffer.kept, scan := buffer.scanned, filled := buffer.filled }

namespace Cursor

/-- The indices are in order and within the storage. -/
def check? (cursor : Cursor) : Option Buffer :=
  if h : cursor.out ≤ cursor.scan ∧ cursor.scan ≤ cursor.filled ∧
      cursor.filled ≤ cursor.storage.length then
    some
      { storage := cursor.storage
        kept := cursor.out
        scanned := cursor.scan
        filled := cursor.filled
        kept_le_scanned := h.1
        scanned_le_filled := h.2.1
        filled_le_length := h.2.2 }
  else none

/-- A line and the number of bytes that it takes up, its terminator included. -/
structure Found where
  line : Octets
  used : Nat
  deriving DecidableEq, Repr

/-- Look for the first complete line. -/
def look? (cursor : Cursor) : Option (Buffer × Option Found) := do
  let buffer ← cursor.check?
  let unread ← cursor.storage.slice? cursor.scan cursor.filled
  match Line.next? unread with
  | none => return (buffer, none)
  | some (raw, _) =>
    let line ← cursor.storage.slice? cursor.scan (cursor.scan + (Line.chomp raw).length)
    return (buffer, some { line, used := raw.length + 1 })

/-- Pass over a line. -/
def skip (cursor : Cursor) (found : Found) : Cursor :=
  { cursor with scan := cursor.scan + found.used }

/-- Move a line to the bytes that stay, and put a line feed behind it. Only bytes of lines that have
been looked at may be written over. -/
def keep? (cursor : Cursor) (found : Found) : Option Cursor :=
  let out := cursor.out + found.line.length
  let scan := cursor.scan + found.used
  if out + 1 ≤ scan then do
    let stop := cursor.scan + found.line.length
    let storage ← cursor.storage.copyWithin? cursor.scan stop cursor.out
    let storage ← storage.store? out Line.lineFeed
    return { storage, out := out + 1, scan, filled := cursor.filled }
  else none

/-- Move the bytes that nobody has looked at down to those that stay. -/
def compact? (cursor : Cursor) : Option Cursor :=
  if cursor.out < cursor.scan then do
    let storage ← cursor.storage.copyWithin? cursor.scan cursor.filled cursor.out
    let filled := cursor.filled - (cursor.scan - cursor.out)
    return { storage, out := cursor.out, scan := cursor.out, filled }
  else some cursor

/-- Room for the next read, of which there has to be some. -/
def room? (cursor : Cursor) : Option Nat :=
  if cursor.filled < cursor.storage.length then some (cursor.storage.length - cursor.filled)
  else none

/-- Put the bytes of a read behind all others. -/
def fill? (cursor : Cursor) (chunk : Octets) : Option Cursor := do
  let storage ← cursor.storage.write? cursor.filled chunk
  return { cursor with storage, filled := cursor.filled + chunk.length }

/-- A line that is found takes up unread bytes. -/
theorem unread_skip_lt {cursor : Cursor} {buffer : Buffer} {found : Found}
    (h : cursor.look? = some (buffer, some found)) :
    (cursor.skip found).filled - (cursor.skip found).scan < cursor.filled - cursor.scan := by
  simp only [look?, Option.bind_eq_bind, Option.bind_eq_some_iff] at h
  obtain ⟨checked, -, unread, hunread, h⟩ := h
  cases hnext : Line.next? unread with
  | none => simp [hnext] at h
  | some pair =>
    obtain ⟨raw, rest⟩ := pair
    simp only [hnext, Option.bind_eq_some_iff, Option.pure_def, Option.some.injEq,
      Prod.mk.injEq] at h
    obtain ⟨line, -, -, rfl⟩ := h
    have hlength := Line.length_of_next? hnext
    have hsize := Octets.length_of_slice? hunread
    change cursor.filled - (cursor.scan + (raw.length + 1)) < cursor.filled - cursor.scan
    omega

theorem unread_keep_lt {cursor next : Cursor} {buffer : Buffer} {found : Found}
    (h : cursor.look? = some (buffer, some found)) (hkeep : cursor.keep? found = some next) :
    next.filled - next.scan < cursor.filled - cursor.scan := by
  have hskip := unread_skip_lt h
  unfold keep? at hkeep
  simp only at hkeep
  split at hkeep
  case isTrue =>
    simp only [Option.bind_eq_bind, Option.bind_eq_some_iff, Option.pure_def, Option.some.injEq]
      at hkeep
    obtain ⟨moved, -, storage, -, rfl⟩ := hkeep
    exact hskip
  case isFalse => cases hkeep

/-- Go through the lines of a response, up to the final result. -/
def digest? (command : Octets) (cursor : Cursor) : Option Reception.Digest :=
  match hlook : cursor.look? with
  | none => none
  | some (buffer, none) => some { buffer }
  | some (_, some found) =>
    have := unread_skip_lt hlook
    match Line.kind command found.line with
    | .verdict v =>
      (cursor.skip found).check?.map fun buffer => { buffer, verdict := some v }
    | .notice =>
      (digest? command (cursor.skip found)).map fun later =>
        { later with signals := (Signal.ofLine? found.line).toList ++ later.signals }
    | .data =>
      match hkeep : cursor.keep? found with
      | none => none
      | some next =>
        have := unread_keep_lt hlook hkeep
        digest? command next
    | .blank | .echo => digest? command (cursor.skip found)
termination_by cursor.filled - cursor.scan
decreasing_by all_goals assumption

/-- The bytes behind a line are fewer. -/
theorem length_later_lt {rest raw behind later : Octets}
    (hnext : Line.next? rest = some (raw, behind))
    (hlater : rest.slice? (raw.length + 1) rest.length = some later) :
    later.length < rest.length := by
  have hrest := Line.length_of_next? hnext
  have hsize := Octets.length_of_slice? hlater
  omega

/-- Go through the lines behind a final result. The result has the bytes behind the last line. -/
def drain? (rest : Octets) : Option (List Signal × Octets) :=
  match hnext : Line.next? rest with
  | none => some ([], rest)
  | some (raw, _) =>
    match hlater : rest.slice? (raw.length + 1) rest.length with
    | none => none
    | some later =>
      have := length_later_lt hnext hlater
      (drain? later).map fun (signals, left) =>
        match Line.idleKind (Line.chomp raw) with
        | .notice => ((Signal.ofLine? (Line.chomp raw)).toList ++ signals, left)
        | .blank | .echo | .verdict _ | .data => (signals, left)
termination_by rest.length

/-- Take in the bytes of one read in the course of a command. -/
def receive? (command : Octets) (cursor : Cursor) (chunk : Octets) :
    Option (Reception.Outcome × List Signal) := do
  let cursor ← cursor.fill? chunk
  let { buffer, signals, verdict } ← cursor.digest? command
  let rest ← buffer.storage.slice? buffer.scanned buffer.filled
  let payload ← buffer.storage.slice? 0 (buffer.kept - 1)
  match verdict with
  | some verdict =>
    let (later, left) ← drain? rest
    return (.ended { verdict, payload, cut := !left.isEmpty }, signals ++ later)
  | none =>
    match Line.openVerdict? rest with
    | some verdict => return (.ended { verdict, payload, cut := false }, signals)
    | none =>
      let cursor ← buffer.cursor.compact?
      let buffer ← cursor.check?
      return (.unfinished buffer, signals)

/-- Go through lines that nobody waits for. -/
def sift? (alignment : Alignment) (cursor : Cursor) : Option (Purge × List Signal) :=
  match hlook : cursor.look? with
  | none => none
  | some (buffer, none) => some ({ alignment, buffer }, [])
  | some (_, some found) =>
    have := unread_skip_lt hlook
    match alignment, Line.idleKind found.line with
    | .midLine, _ => sift? .aligned (cursor.skip found)
    | alignment, .notice =>
      (sift? alignment (cursor.skip found)).map fun (purge, later) =>
        (purge, (Signal.ofLine? found.line).toList ++ later)
    | _, .verdict _ => sift? .aligned (cursor.skip found)
    | alignment, .blank | alignment, .echo | alignment, .data =>
      sift? alignment (cursor.skip found)
termination_by cursor.filled - cursor.scan
decreasing_by all_goals assumption

/-- Take in the bytes of one read while realigning. What is left of them is moved to the front. -/
def discard? (alignment : Alignment) (cursor : Cursor) (chunk : Octets) :
    Option (Purge × List Signal) := do
  let cursor ← cursor.fill? chunk
  let ({ alignment, buffer }, signals) ← cursor.sift? alignment
  let storage ← buffer.storage.copyWithin? buffer.scanned buffer.filled 0
  let filled := buffer.filled - buffer.scanned
  let filled := if filled = storage.length then 0 else filled
  let buffer ← { storage, filled : Cursor }.check?
  return ({ alignment, buffer }, signals)

/-- Go through the lines that a sweep brought in. -/
def dispatch? (cursor : Cursor) : Option Listener.Dispatch :=
  match hlook : cursor.look? with
  | none => none
  | some (_, none) =>
    some { signals := [], dropped := if cursor.scan < cursor.filled then 1 else 0 }
  | some (_, some found) =>
    have := unread_skip_lt hlook
    (dispatch? (cursor.skip found)).map fun later =>
      match Line.idleKind found.line with
      | .blank => later
      | .notice =>
        match Signal.ofLine? found.line with
        | some signal => { later with signals := signal :: later.signals }
        | none => { later with dropped := later.dropped + 1 }
      | .echo | .verdict _ | .data => { later with dropped := later.dropped + 1 }
termination_by cursor.filled - cursor.scan

end Cursor

section Steps

variable {τ : Type} [Transport τ]

/-- A step of a realignment, checked. -/
def Realignment.step? (realignment : Realignment) (station : Station τ) :
    Option (Progress Realignment (Except Error Unit) × Station τ) :=
  let { purge, timer } := realignment
  if purge.isDone then some (.finished (.ok ()), station.align .aligned)
  else do
    let room ← purge.buffer.cursor.room?
    match station.read .realignment room with
    | (.waiting, station) =>
      match timer.ask station.now with
      | some timer => return (.waiting { purge, timer }, station)
      | none => return (.finished (.error .timeout), station.align .aligned)
    | (.failed, station) => return (.finished (.error .transport), station.align .aligned)
    | (.done chunk, station) =>
      if chunk.val = [] then return (.finished (.error .transport), station.align .aligned)
      else
        let (purge, signals) ← purge.buffer.cursor.discard? purge.alignment chunk.val
        return (.moved { purge, timer }, station.publishAll .realignment signals)

/-- A step of an exchange, checked. -/
def Exchange.step? (call : Call) :
    Stage → Station τ → Option (Progress Stage Result × Station τ)
  | .realigning request realignment, station => do
    match ← realignment.step? station with
    | (.moved realignment, station) => return (.moved (.realigning request realignment), station)
    | (.waiting realignment, station) =>
      return (.waiting (.realigning request realignment), station)
    | (.finished _, station) => return (.moved (startSending call request station), station)
  | .receiving buffer timer, station =>
    if buffer.filled = buffer.storage.length then some (abandon station .transport)
    else do
      let room ← buffer.cursor.room?
      match station.read .response room with
      | (.waiting, station) => return wait station timer fun timer => .receiving buffer timer
      | (.failed, station) => return finish station (.error .transport)
      | (.done chunk, station) =>
        if chunk.val = [] then return finish station (.error .transport)
        else
          let outcome ← buffer.cursor.receive? (Octets.ofText call.command) chunk.val
          return received timer station outcome
  | .queued, station => some (step call .queued station)
  | .sending request timer begun, station => some (step call (.sending request timer begun) station)
  | .flushing timer begun, station => some (step call (.flushing timer begun) station)

/-- A step of a sweep, checked. -/
def Sweep.step? (timeout : Millis) :
    Stage → Station τ → Option (Progress Stage Result × Station τ)
  | .queued, station => some (step timeout .queued station)
  | .realigning realignment, station => do
    match ← realignment.step? station with
    | (.moved realignment, station) => return (.moved (.realigning realignment), station)
    | (.waiting realignment, station) => return (.waiting (.realigning realignment), station)
    | (.finished _, station) => return finish station (.ok none)
  | .reading, station => do
    let buffer := Buffer.empty Limits.response
    let room ← buffer.cursor.room?
    match station.read .sweep room with
    | (.waiting, station) => return (.waiting .reading, station)
    | (.failed, station) => return finish station (.error .transport)
    | (.done chunk, station) =>
      if chunk.val = [] then return finish station (.ok (some buffer))
      else
        let cursor ← buffer.cursor.fill? chunk.val
        let buffer ← cursor.check?
        return (.moved (.completing buffer (.start station.now timeout)), station)
  | .completing buffer timer, station => do
    let taken ← buffer.storage.slice? 0 buffer.filled
    if taken.getLast? = some Line.lineFeed then return finish station (.ok (some buffer))
    else if buffer.filled = buffer.storage.length then return cutShort station buffer
    else
      let room ← buffer.cursor.room?
      match station.read .sweep room with
      | (.waiting, station) =>
        match timer.ask station.now with
        | some timer => return (.waiting (.completing buffer timer), station)
        | none => return cutShort station buffer
      | (.failed, station) => return cutShort station buffer
      | (.done chunk, station) =>
        if chunk.val = [] then return cutShort station buffer
        else
          let cursor ← buffer.cursor.fill? chunk.val
          let buffer ← cursor.check?
          return (.moved (.completing buffer timer), station)

/-- Act on the result of a sweep, checked. The lines are looked for from the front of the storage
on. -/
def Listener.swept? (settings : Settings) (result : Sweep.Result) (station : Station τ) :
    Option (Stage × Station τ) :=
  match result with
  | .ok (some buffer) =>
    if buffer.filled = 0 then some (pause settings station)
    else do
      let cursor : Cursor := { storage := buffer.storage, filled := buffer.filled }
      let { signals, dropped } ← cursor.dispatch?
      let station := (station.setListener .dispatching).publishAll .sweep signals
      return (.choosing, (station.count signals.length dropped).setListener .idle)
  | .ok none | .error _ => some (pause settings station)

/-- A step of what is done on the transport in one go, checked. -/
def Job.step? : Job → Station τ → Option (Progress Job Outcome × Station τ)
  | .exchange call stage, station => do
    match ← Exchange.step? call stage station with
    | (.moved stage, station) => return (.moved (.exchange call stage), station)
    | (.waiting stage, station) => return (.waiting (.exchange call stage), station)
    | (.finished result, station) => return (.finished (.exchanged result), station)
  | .poll settings stage, station => do
    match ← Sweep.step? settings.responseTimeout stage station with
    | (.moved stage, station) => return (.moved (.poll settings stage), station)
    | (.waiting stage, station) => return (.waiting (.poll settings stage), station)
    | (.finished result, station) =>
      let (_, station) ← Listener.swept? settings result station
      return (.finished (.polled result), station)

end Steps

end CellModem
