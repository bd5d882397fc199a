import CellModem.Proofs.Delivery
import CellModem.Proofs.Leftover
import CellModem.Proofs.Recovery

/-!
What is left of a response that was given up never reaches the next exchange.
-/

namespace CellModem

namespace Line

/-- A response that ends with its only final result, of which no part of a line looks like one
before. -/
def Unmistakable (response : Octets) : Prop :=
  response = [] ∨ ∃ lines final verdict, split response = (lines ++ [final], []) ∧
    idleKind final = .verdict verdict ∧
    ∀ line ∈ lines, ∀ part, part <:+ line → ∀ v, idleKind part ≠ .verdict v

theorem next?_append {raw rest : Octets} (h : lineFeed ∉ raw) :
    next? (raw ++ lineFeed :: rest) = some (raw, rest) := by
  induction raw with
  | nil => rfl
  | cons b raw ih =>
    obtain ⟨hb, hraw⟩ : lineFeed ≠ b ∧ lineFeed ∉ raw := by simpa using h
    rw [List.cons_append, next?, if_neg (Ne.symm hb), ih hraw]
    rfl

theorem lineFeed_notMem_of_next? {bytes raw rest : Octets} (h : next? bytes = some (raw, rest)) :
    lineFeed ∉ raw := by
  have hmem : raw ∈ (splitRaw bytes).1 := by
    rw [splitRaw_eq, h]
    exact List.mem_cons_self ..
  exact lineFeed_notMem_line hmem

theorem next?_append_right {bytes raw rest : Octets} (h : next? bytes = some (raw, rest))
    (more : Octets) : next? (bytes ++ more) = some (raw, rest ++ more) := by
  rw [eq_append_of_next? h, List.append_assoc]
  exact next?_append (lineFeed_notMem_of_next? h)

theorem chomp_suffix (front raw : Octets) : chomp raw <:+ chomp (front ++ raw) := by
  by_cases hraw : raw = []
  · rw [hraw]
    exact List.nil_suffix
  · have hlast : (front ++ raw).getLast? = raw.getLast? := by
      rw [List.getLast?_append, List.getLast?_eq_some_getLast hraw]
      rfl
    unfold chomp
    rw [hlast]
    split
    · rw [List.dropLast_append_of_ne_nil hraw]
      exact List.suffix_append _ _
    · exact List.suffix_append _ _

theorem eq_nil_of_split {bytes : Octets} (h : split bytes = ([], [])) : bytes = [] := by
  have hjoin := splitRaw_join bytes
  simp only [split, Prod.mk.injEq, List.map_eq_nil_iff] at h
  rw [h.1, h.2] at hjoin
  exact hjoin.symm

/-- Nothing stands behind what looks like a final result, wherever one starts to read. -/
theorem Unmistakable.rest_eq_nil {response unread raw rest : Octets} {v : Verdict}
    (h : Unmistakable response) (hunread : unread <:+ response)
    (hnext : next? unread = some (raw, rest)) (hverdict : idleKind (chomp raw) = .verdict v) :
    rest = [] := by
  obtain ⟨front, rfl⟩ := hunread
  have hraw := lineFeed_notMem_of_next? hnext
  have hfront := lineFeed_notMem_rest front
  have hline : next? ((split front).2 ++ unread) = some ((split front).2 ++ raw, rest) := by
    rw [eq_append_of_next? hnext, ← List.append_assoc]
    exact next?_append fun hmem => (List.mem_append.mp hmem).elim hfront hraw
  have hsplit := split_append front unread
  rw [split_of_next? hline] at hsplit
  rcases h with hempty | ⟨lines, final, verdict, hlines, -, hplain⟩
  · rw [(List.append_eq_nil_iff.mp hempty).2] at hnext
    cases hnext
  · rw [hlines, Prod.mk.injEq] at hsplit
    obtain ⟨hall, hend⟩ := hsplit
    rcases List.eq_nil_or_concat (split rest).1 with hnone | ⟨others, other, hothers⟩
    · exact eq_nil_of_split (Prod.ext hnone hend.symm)
    · rw [List.concat_eq_append] at hothers
      simp only [hothers] at hall
      rw [← List.cons_append, ← List.append_assoc] at hall
      have hmem : chomp ((split front).2 ++ raw) ∈ lines := by
        rw [(List.append_inj' hall rfl).1]
        simp
      exact absurd hverdict (hplain _ hmem _ (chomp_suffix _ _) v)

end Line

namespace Purge

/-- How far a given up response is got rid of. Until its final result was found, what is unread is
the end of the response; afterwards nothing is. -/
def Nears (response rest : Octets) (purge : Purge) : Prop :=
  purge.alignment = .awaitingVerdict ∧ purge.buffer.pending ++ rest <:+ response ∨
    purge.alignment = .aligned ∧ purge.buffer.pending = [] ∧ rest = []

variable {response rest : Octets}

theorem sift_nears (h : Line.Unmistakable response) (alignment : Alignment) (buffer : Buffer)
    (hnears : Nears response rest { alignment, buffer }) :
    Nears response rest (sift alignment buffer).1 := by
  have hpassed : ∀ alignment (buffer : Buffer) (span : buffer.Span),
      buffer.nextLine? = some span → Nears response rest { alignment, buffer } →
      alignment = .awaitingVerdict ∧ (buffer.skip span).pending ++ rest <:+ response := by
    intro alignment buffer span hspan hnears
    rcases hnears with ⟨halignment, hunread⟩ | ⟨-, hpending, -⟩
    · refine ⟨halignment, List.IsSuffix.trans ?_ hunread⟩
      rw [Buffer.pending_skip]
      exact ⟨buffer.pending.take span.used, by rw [← List.append_assoc, List.take_append_drop]⟩
    · obtain ⟨raw, hnext, -⟩ := Buffer.next?_of_nextLine? hspan
      rw [hpending] at hnext
      cases hnext
  fun_induction sift alignment buffer with
  | case1 alignment buffer hnone => exact hnears
  | case2 buffer span hspan ih => cases (hpassed _ _ _ hspan hnears).1
  | case3 buffer span hspan alignment halignment hkind purge later hsift ih =>
    have hlater := ih (Or.inl (hpassed _ _ _ hspan hnears))
    rw [hsift] at hlater
    exact hlater
  | case4 alignment buffer span hspan verdict hkind halignment ih =>
    -- Nothing stands behind a final result, neither in the buffer nor on the wire.
    obtain ⟨raw, hnext, hline⟩ := Buffer.next?_of_nextLine? hspan
    rw [hline] at hkind
    rcases hnears with ⟨-, hunread⟩ | ⟨-, hpending, -⟩
    · have hnil := h.rest_eq_nil hunread (Line.next?_append_right hnext rest) hkind
      obtain ⟨hleft, hrest⟩ := List.append_eq_nil_iff.mp hnil
      exact ih (Or.inr ⟨rfl, by rw [Buffer.pending_skip, hleft], hrest⟩)
    · rw [hpending] at hnext
      cases hnext
  | case5 buffer span hspan alignment halignment hkind ih
  | case6 buffer span hspan alignment halignment hkind ih
  | case7 buffer span hspan alignment halignment hkind ih =>
    exact ih (Or.inl (hpassed _ _ _ hspan hnears))

/-- Taking in more of the response keeps it in sight, and there is room again. -/
theorem absorb_nears (h : Line.Unmistakable response) {purge : Purge}
    {chunk : Chunk purge.buffer.room}
    (hnears : Nears response (chunk.val ++ rest) purge) (hkept : purge.buffer.kept = 0)
    (hsize : 0 < purge.buffer.storage.length) :
    Nears response rest (purge.absorb chunk).1 ∧ (purge.absorb chunk).1.buffer.kept = 0 ∧
      (purge.absorb chunk).1.buffer.storage.length = purge.buffer.storage.length ∧
      0 < (purge.absorb chunk).1.buffer.room := by
  have hfilled : Nears response rest
      { alignment := purge.alignment, buffer := purge.buffer.fill chunk } := by
    rcases hnears with ⟨halignment, hunread⟩ | ⟨halignment, hpending, hnone⟩
    · refine Or.inl ⟨halignment, ?_⟩
      rw [Buffer.pending_fill, List.append_assoc]
      exact hunread
    · obtain ⟨hchunk, hrest⟩ := List.append_eq_nil_iff.mp hnone
      refine Or.inr ⟨halignment, ?_, hrest⟩
      rw [Buffer.pending_fill, hpending, hchunk]
      rfl
  have hsifted := sift_nears h _ _ hfilled
  obtain ⟨halignment, -, hpending⟩ := sift_sifted purge.alignment (purge.buffer.fill chunk)
  rw [Buffer.pending_fill] at halignment hpending
  obtain ⟨dropped, habsorbed⟩ := purge.absorb_absorbed chunk
  refine ⟨?_, habsorbed.kept_eq.trans hkept, habsorbed.length_eq,
    habsorbed.room_pos (hkept ▸ hsize)⟩
  rw [← habsorbed.alignment_eq] at halignment
  rw [habsorbed.rest_eq] at hpending
  rcases hsifted with ⟨hawaiting, hunread⟩ | ⟨haligned, hnothing, hnone⟩
  · rw [hpending, List.append_assoc] at hunread
    exact Or.inl ⟨halignment.symm.trans hawaiting, (List.suffix_append _ _).trans hunread⟩
  · rw [hpending] at hnothing
    exact Or.inr ⟨halignment.symm.trans haligned, (List.append_eq_nil_iff.mp hnothing).2, hnone⟩

end Purge

namespace Timer

theorem ask_of_le {timer : Timer} {now : Millis} (hasked : timer.asked = true)
    (hlate : timer.deadline ≤ now) : timer.ask now = none := by
  simp [ask, hasPassed, hasked, hlate]

/-- A timer that nobody has asked about has not passed. -/
theorem ask_of_not_asked {timer : Timer} {now : Millis} (h : timer.asked = false) :
    timer.ask now = some { timer with asked := true } := by
  simp [ask, hasPassed, h]

end Timer

namespace Exchange

variable {τ : Type}

/-- The exchange has the lock, no request of its own was handed over yet, and the transport holds
these bytes. -/
structure Owns (before : List Octets) (holds : Octets → τ → Prop) (bytes : Octets)
    (station : Station τ) : Prop where
  locked : station.locked = true
  requests_eq : station.requests = before
  transport : holds bytes station.transport

/-- The leftover is gone, and the exchange is about to send. -/
def Cleared (call : Call) (request : Octets) (before : List Octets) (holds : Octets → τ → Prop)
    (stage : Stage) (station : Station τ) : Prop :=
  stage = startSending call request station ∧ station.alignment = .aligned ∧
    Owns before holds [] station

variable {call : Call} {request : Octets} {before : List Octets} {holds : Octets → τ → Prop}
  {due : Millis}

theorem Owns.align {bytes : Octets} {station : Station τ} (h : Owns before holds bytes station)
    (alignment : Alignment) : Owns before holds bytes (station.align alignment) :=
  ⟨h.locked, (Station.requests_record rfl).trans h.requests_eq, h.transport⟩

variable [Transport τ]

theorem Owns.read {bytes bytes' : Octets} {station next : Station τ} {purpose : Purpose}
    {room : Nat} {attempt : Attempt (Chunk room)} (h : Owns before holds bytes station)
    (hrun : station.read purpose room = (attempt, next)) (hholds : holds bytes' next.transport) :
    Owns before holds bytes' next := by
  have hstanding := station.standing_read purpose room
  rw [hrun] at hstanding
  cases attempt with
  | done chunk =>
    exact ⟨(congrArg Standing.locked hstanding).trans h.locked,
      (congrArg Standing.requests hstanding).trans h.requests_eq, hholds⟩
  | failed =>
    exact ⟨(congrArg Standing.locked hstanding).trans h.locked,
      (congrArg Standing.requests hstanding).trans h.requests_eq, hholds⟩
  | waiting =>
    exact ⟨(congrArg Standing.locked hstanding).trans h.locked,
      (congrArg Standing.requests hstanding).trans h.requests_eq, hholds⟩

theorem reaches_of_done {purge : Purge} {timer : Timer} {station : Station τ}
    (hdone : purge.isDone = true) (howns : Owns before holds [] station) :
    Course.Reaches (step call) (.realigning request { purge, timer }) station
      (Cleared call request before holds) := by
  have hstep : step call (.realigning request { purge, timer }) station =
      (.moved (startSending call request (station.align .aligned)), station.align .aligned) := by
    simp only [step, Realignment.step, hdone, if_true]
  exact Course.reaches_of_moved hstep (Course.reaches_of_goal ⟨rfl, rfl, howns.align .aligned⟩)

/-- With nothing on the wire, a step waits until the time is over and then begins to send. -/
theorem step_of_nothing (hconveys : Conveys due holds) {purge : Purge} {timer : Timer}
    {station : Station τ} (hdone : purge.isDone = false) (hroom : 0 < purge.buffer.room)
    (howns : Owns before holds [] station) :
    ∃ next, Owns before holds [] next ∧ next.now = station.now ∧
      step call (.realigning request { purge, timer }) station =
        match timer.ask station.now with
        | some timer => (.waiting (.realigning request { purge, timer }), next)
        | none => (.moved (startSending call request (next.align .aligned)),
            next.align .aligned) := by
  have hsettles := hconveys [] station.transport station.now _ howns.transport hroom
  cases hrun : station.read .realignment purge.buffer.room with
  | mk attempt next =>
    obtain ⟨htransport, hnow⟩ := Station.transport_of_read hrun
    rw [htransport] at hsettles
    cases attempt with
    | failed => exact hsettles.elim
    | done chunk =>
      obtain ⟨hchunk, rest, hnil, -⟩ := hsettles
      exact absurd (List.append_eq_nil_iff.mp hnil).1 hchunk
    | waiting =>
      refine ⟨next, howns.read hrun hsettles.2, hnow, ?_⟩
      simp only [step, Realignment.step, hdone, hrun, hnow]
      cases timer.ask station.now <;> rfl

theorem reaches_of_nothing (hconveys : Conveys due holds) {purge : Purge} (timer : Timer)
    {station : Station τ} (hroom : 0 < purge.buffer.room) (howns : Owns before holds [] station) :
    Course.Reaches (step call) (.realigning request { purge, timer }) station
      (Cleared call request before holds) := by
  by_cases hdone : purge.isDone = true
  · exact reaches_of_done hdone howns
  let waits : Stage → Station τ → Prop := fun stage station =>
    ∃ later : Timer, stage = .realigning request { purge, timer := later } ∧
      later.deadline = timer.deadline ∧ Owns before holds [] station
  have hstart : waits (.realigning request { purge, timer }) station := ⟨timer, rfl, rfl, howns⟩
  refine Course.reaches_of_wait timer.deadline ?_ ?_ hstart
  · rintro stage station moment ⟨later, hstage, hdeadline, howns⟩
    exact ⟨later, hstage, hdeadline, howns.locked, howns.requests_eq, howns.transport⟩
  rintro stage station ⟨later, rfl, hdeadline, howns⟩
  have hidle : purge.isDone = false := Bool.eq_false_iff.mpr hdone
  have hover : ∀ (asked : Timer) (station : Station τ), asked.asked = true →
      asked.deadline ≤ station.now → Owns before holds [] station →
      Course.Reaches (step call) (.realigning request { purge, timer := asked }) station
        (Cleared call request before holds) := by
    intro asked station hasked hlate howns
    obtain ⟨next, hnext, -, hstep⟩ := step_of_nothing hconveys hidle hroom howns
    rw [Timer.ask_of_le hasked hlate] at hstep
    exact Course.reaches_of_moved hstep (Course.reaches_of_goal ⟨rfl, rfl, hnext.align .aligned⟩)
  obtain ⟨next, hnext, hnow, hstep⟩ := step_of_nothing hconveys hidle hroom howns
  by_cases hearly : station.now < later.deadline
  · rw [Timer.ask_of_lt hearly] at hstep
    rw [hdeadline] at hearly
    exact Or.inl ⟨hearly, _, next, hstep, { later with asked := true }, rfl, hdeadline, hnext⟩
  · have hlate := Nat.le_of_not_lt hearly
    right
    cases hasked : later.asked with
    | true => exact hover later station hasked hlate howns
    | false =>
      rw [Timer.ask_of_not_asked hasked] at hstep
      refine Course.reaches_of_waiting hstep fun moment => ?_
      refine hover _ _ rfl ?_ ⟨hnext.locked, hnext.requests_eq, hnext.transport⟩
      exact Nat.le_trans hlate (hnow ▸ Nat.le_max_left _ _)

/-- With something on the wire that has come in, a step takes in a part of it. -/
theorem step_of_bytes (hconveys : Conveys due holds) {purge : Purge} {timer : Timer}
    {station : Station τ} {bytes : Octets} (hbytes : bytes ≠ []) (harrived : due ≤ station.now)
    (hdone : purge.isDone = false) (hroom : 0 < purge.buffer.room)
    (howns : Owns before holds bytes station) :
    ∃ (chunk : Chunk purge.buffer.room) (later : Octets) (next : Station τ),
      bytes = chunk.val ++ later ∧ later.length < bytes.length ∧
      Owns before holds later next ∧ next.now = station.now ∧
      next.published = station.published ++ (purge.absorb chunk).2 ∧
      step call (.realigning request { purge, timer }) station =
        (.moved (.realigning request { purge := (purge.absorb chunk).1, timer }), next) := by
  have hsettles := hconveys bytes station.transport station.now _ howns.transport hroom
  cases hrun : station.read .realignment purge.buffer.room with
  | mk attempt next =>
    obtain ⟨htransport, hnow⟩ := Station.transport_of_read hrun
    rw [htransport] at hsettles
    cases attempt with
    | failed => exact hsettles.elim
    | waiting =>
      rcases hsettles.1 with hempty | hearly
      · exact absurd hempty hbytes
      · exact absurd harrived (Nat.not_le_of_lt hearly)
    | done chunk =>
      obtain ⟨hchunk, later, rfl, hholds⟩ := hsettles
      have hshorter : later.length < (chunk.val ++ later).length := by
        have hpositive := List.length_pos_iff.mpr hchunk
        rw [List.length_append]
        omega
      have hnext := howns.read hrun hholds
      have hpublished := station.published_read .realignment purge.buffer.room
      rw [hrun] at hpublished
      refine ⟨chunk, later, next.publishAll .realignment (purge.absorb chunk).2, rfl, hshorter,
        ⟨?_, ?_, ?_⟩, ?_, ?_, ?_⟩
      · rw [Station.publishAll_eq]
        exact hnext.locked
      · rw [Station.requests_publishAll]
        exact hnext.requests_eq
      · rw [Station.publishAll_eq]
        exact hnext.transport
      · rw [Station.publishAll_eq]
        exact hnow
      · rw [Station.published_publishAll, hpublished]
      · simp only [step, Realignment.step, hdone, hrun, hchunk]
        rfl

/-- Whatever part of a given up response has come in is dropped, in reads of any size. -/
theorem reaches_of_leftover (hconveys : Conveys due holds) {response : Octets}
    (hresponse : Line.Unmistakable response) (rest : Octets) (purge : Purge) (timer : Timer)
    (station : Station τ) (harrived : due ≤ station.now)
    (hnears : Purge.Nears response rest purge) (hkept : purge.buffer.kept = 0)
    (hsize : 0 < purge.buffer.storage.length) (hroom : 0 < purge.buffer.room)
    (howns : Owns before holds rest station) :
    Course.Reaches (step call) (.realigning request { purge, timer }) station
      (Cleared call request before holds) := by
  by_cases hrest : rest = []
  · subst hrest
    exact reaches_of_nothing hconveys timer hroom howns
  have hdone : purge.isDone = false := by
    rcases hnears with ⟨halignment, -⟩ | ⟨-, -, hnone⟩
    · simp [Purge.isDone, halignment]
    · exact absurd hnone hrest
  obtain ⟨chunk, later, next, rfl, hshorter, hnext, hnow, -, hstep⟩ :=
    step_of_bytes hconveys hrest harrived hdone hroom howns
  obtain ⟨hnears', hkept', hsize', hroom'⟩ := Purge.absorb_nears hresponse hnears hkept hsize
  apply Course.reaches_of_moved hstep
  exact reaches_of_leftover hconveys hresponse later _ timer next (hnow ▸ harrived) hnears' hkept'
    (hsize' ▸ hsize) hroom' hnext
termination_by rest.length

omit [Transport τ] in
theorem awaitingVerdict_of_ends {result : Result} {standing : Standing}
    (h : Ends call before result standing)
    (hgiven : result = .error .timeout ∨ result = .error .transport ∧ standing.flushed = true ∧
      Line.Unended (Octets.ofText call.command) standing.reply ∧ Overflows call standing.reply) :
    standing.locked = false ∧ standing.alignment = .awaitingVerdict := by
  cases h with
  | unsendable hrequest hrequests =>
    rcases hgiven with htimeout | ⟨htransport, -⟩
    · cases htimeout
    · cases htransport
  | timedOut hrequest hunended => exact ⟨rfl, rfl⟩
  | overflowed hrequest hunended hfull => exact ⟨rfl, rfl⟩
  | failed hrequest hunended hroom =>
    rcases hgiven with htimeout | ⟨-, hflushed, -, hfull⟩
    · cases htimeout
    · exact absurd hfull (hroom hflushed)
  | concluded hrequest hconcludes halignment =>
    rename_i lines verdict alignment
    rcases hgiven with htimeout | ⟨-, -, hunended, -⟩
    · cases verdict <;> cases htimeout
    · exact absurd hunended hconcludes.not_unended

/-- An exchange gave up within its response: its time was over, or its buffer was full. -/
def GivenUp (call : Call) (result : Result) (station : Station τ) : Prop :=
  result = .error .timeout ∨ result = .error .transport ∧ station.standing.flushed = true ∧
    Line.Unended (Octets.ofText call.command) station.reply ∧ Overflows call station.reply

theorem step_of_unaligned {station : Station τ} (hrequest : call.request? = some request)
    (hlocked : station.locked = false) (hunaligned : station.alignment ≠ .aligned) :
    step call .queued station =
      (.moved (.realigning request (.start station.lock call.timeout)), station.lock) := by
  have hkept : station.lock.alignment ≠ .aligned := hunaligned
  simp [step, hrequest, hlocked, hkept]

omit [Transport τ] in
theorem room_of_empty : 0 < (Buffer.empty Limits.response).room := by
  rw [Buffer.room, Buffer.empty, List.length_replicate]
  decide

/-- The next exchange after one that was given up gets rid of the rest of the response first. -/
theorem reaches_after_giving_up {first second : Call} {moments : List Millis}
    {station given : Station τ} {result : Result}
    (hrun : Course.follow (step first) moments .queued station = (.finished result, given))
    (hgiven : GivenUp first result given) {response rest : Octets}
    (hresponse : Line.Unmistakable response) (hsplit : given.reply ++ rest = response)
    (hconveys : Conveys due holds) (hrest : holds rest given.transport)
    (hrequest : second.request? = some request) :
    Course.Reaches (step second) .queued (given.passTo due)
      (Cleared second request given.requests holds) := by
  have hends := follow_upholds first moments station
  rw [hrun] at hends
  obtain ⟨hlocked, halignment⟩ := awaitingVerdict_of_ends hends hgiven
  change given.locked = false at hlocked
  change given.alignment = .awaitingVerdict at halignment
  have hfree : (given.passTo due).locked = false := hlocked
  have hunaligned : (given.passTo due).alignment ≠ .aligned := by
    intro haligned
    cases halignment.symm.trans haligned
  apply Course.reaches_of_moved (step_of_unaligned hrequest hfree hunaligned)
  have hnears : Purge.Nears response rest
      { alignment := given.alignment, buffer := .empty Limits.response } :=
    Or.inl ⟨halignment, given.reply, hsplit⟩
  have hsize : 0 < (Buffer.empty Limits.response).storage.length := by
    rw [Buffer.empty, List.length_replicate]
    decide
  exact reaches_of_leftover hconveys hresponse rest _ _ _ (Nat.le_max_right _ _) hnears rfl hsize
    room_of_empty ⟨rfl, Station.requests_record rfl, hrest⟩

/-- Whatever the next command, whatever becomes of it and whenever: it goes on as on a new station
with nothing on the wire, once the rest of the response is gone. If its reply is regular, comes in
time and is shorter than the buffer, it returns what the reply says, as on any station with nothing
on the wire. -/
theorem isolated_after_giving_up (first second : Call) (moments : List Millis)
    (station given : Station τ) (result : Result) (response rest request : Octets)
    (holds : Octets → τ → Prop) (start : Millis)
    (hrun : Course.follow (step first) moments .queued station = (.finished result, given))
    (hgiven : GivenUp first result given) (hresponse : Line.Unmistakable response)
    (hsplit : given.reply ++ rest = response) (hconveys : Conveys start holds)
    (hrest : holds rest given.transport) (hrequest : second.request? = some request) :
    (∀ clock, Course.Unbounded clock → ∃ before asked transport now, holds [] transport ∧
      ∀ steps, (Course.pace (step second) clock (before + steps) .queued (given.passTo start)).1 =
        (Course.pace (step second) (fun n => clock (n + asked)) (steps + 1) .queued
          { transport, now }).1) ∧
    ∀ reply lines final verdict within,
      Line.Regular (Octets.ofText second.command) reply lines final verdict →
      reply.length < second.size → within ≤ second.timeout →
      (∀ now transport, holds [] transport → Responds request reply within now transport) →
      Course.Completes (step second) .queued (given.passTo start)
        (Delivers second given.requests request reply lines verdict) ∧
      ∀ transport now, holds [] transport →
        Course.Completes (step second) .queued { transport, now }
          (Delivers second [] request reply lines verdict) := by
  have hreaches := reaches_after_giving_up hrun hgiven hresponse hsplit hconveys hrest hrequest
  constructor
  · intro clock hclock
    obtain ⟨before, asked, stage, later, ⟨rfl, haligned, howns⟩, hsteps⟩ := hreaches clock hclock
    refine ⟨before, asked, later.transport, later.now, howns.transport, ?_⟩
    intro steps
    let fresh : Station τ := { transport := later.transport, now := later.now }
    have hstep : step second .queued fresh =
        (.moved (startSending second request later), fresh.lock) := by
      simp [step, hrequest, fresh, Station.lock, Station.record, startSending]
    have hbare : later.bare = fresh.lock.bare := by
      simp only [Station.bare, howns.locked, haligned]
      rfl
    rw [hsteps, Course.pace, hstep]
    exact Course.pace_eq_of_bare_eq (step_overlay second) _ steps _ hbare
  · intro reply lines final verdict within hregular hsize hwithin hresponds
    constructor
    · apply hreaches.completes
      rintro stage later ⟨rfl, haligned, howns⟩
      have hcompletes := completes_sending hregular hsize hwithin later howns.locked haligned
        (hresponds _ _ howns.transport)
      rw [howns.requests_eq] at hcompletes
      exact hcompletes
    · intro transport now hholds
      exact completes_queued hrequest hregular hsize hwithin { transport, now } rfl rfl
        (hresponds now transport hholds)

/-- The station after a response of which the second half came too late. -/
def stationAfterTimeout : Station Bench.Modem :=
  (Course.follow (step { versionCall with timeout := 100 }) [0, 0, 0, 0, 0, 100] .queued
    { transport := piecemealModem }).2

theorem version_unmistakable : Line.Unmistakable (Octets.ofText "mfw_1.0\r\nOK\r\n") := by
  refine Or.inr ⟨[Octets.ofText "mfw_1.0"], Octets.ofText "OK", .accepted, by decide, by decide, ?_⟩
  intro line hline part hpart v
  rw [List.mem_singleton.mp hline] at hpart
  have hparts : ∀ n ≤ 7,
      Line.idleKind ((Octets.ofText "mfw_1.0").drop n) ≠ .verdict .accepted ∧
        Line.idleKind ((Octets.ofText "mfw_1.0").drop n) ≠ .verdict .refused := by
    decide
  rw [List.suffix_iff_eq_drop.mp hpart]
  cases v with
  | accepted => exact (hparts _ (Nat.sub_le _ _)).1
  | refused => exact (hparts _ (Nat.sub_le _ _)).2

set_option maxRecDepth 8000 in
/-- The late half is dropped, and the next command gets its own response. -/
theorem isolated_after_timeout :
    stationAfterTimeout.alignment = .awaitingVerdict ∧
      stationAfterTimeout.reply = Octets.ofText "mfw_" ∧
      Course.Completes (step functionalityCall) .queued (stationAfterTimeout.passTo 500)
        (Delivers functionalityCall stationAfterTimeout.requests (Octets.ofText "AT+CFUN?\r\n")
          (Octets.ofText "+CFUN: 1\r\nOK\r\n") [Octets.ofText "+CFUN: 1"] .accepted) := by
  have hresult : (Course.follow (step { versionCall with timeout := 100 }) [0, 0, 0, 0, 0, 100]
      .queued { transport := piecemealModem }).1 = .finished (.error .timeout) := by cbv
  have hreply : stationAfterTimeout.reply = Octets.ofText "mfw_" := by cbv
  have hholds : Bench.Modem.Holds 500 piecemealRules (Octets.ofText "1.0\r\nOK\r\n")
      stationAfterTimeout.transport := by
    have hwire : stationAfterTimeout.transport.wire =
        [{ content := .data (Octets.ofText "1.0\r\nOK\r\n"), arrival := 500 }] := by cbv
    have hchunk : stationAfterTimeout.transport.chunk = none := by cbv
    refine ⟨?_, by cbv, by rw [hchunk]; decide, by cbv, by cbv⟩
    rw [hwire]
    exact .cons (by decide) (Nat.le_refl _) .nil
  have hisolated := isolated_after_giving_up { versionCall with timeout := 100 } functionalityCall
    [0, 0, 0, 0, 0, 100] { transport := piecemealModem } stationAfterTimeout (.error .timeout)
    (Octets.ofText "mfw_1.0\r\nOK\r\n") (Octets.ofText "1.0\r\nOK\r\n")
    (Octets.ofText "AT+CFUN?\r\n") (Bench.Modem.Holds 500 piecemealRules) 500
    (Prod.ext hresult rfl) (Or.inl rfl) version_unmistakable (by rw [hreply]; decide)
    (Bench.Modem.conveys 500 piecemealRules) hholds (by decide)
  refine ⟨by cbv, hreply, ?_⟩
  exact (hisolated.2 _ _ _ _ 20 functionality_regular (by decide) (by decide)
    fun now modem hidle => piecemeal_responds 500 hidle).1

end Exchange

end CellModem
