import CellModem.Proofs.Cutting

/-!
What a larger buffer changes. A response that was returned from a smaller buffer is returned from a
larger one as well, with one exception: the smaller one may have been read to its end with the text
of the final result, and never have had to hold the line end behind it. A larger buffer may hold a
part of that, and be full of it.
-/

namespace CellModem

namespace Course

variable {τ σ α : Type} {step : Course τ σ α} {clock : Nat → Millis} {steps : Nat} {state : σ}
  {station final : Station τ} {result : α}

/-- Behind the end nothing more happens. -/
theorem pace_of_finished (h : pace step clock steps state station = (.finished result, final))
    (more : Nat) : pace step clock (steps + more) state station = (.finished result, final) := by
  induction steps generalizing clock state station with
  | zero => cases h
  | succ steps ih =>
    unfold pace at h
    rw [Nat.add_right_comm, pace]
    cases hrun : step state station with
    | mk progress next =>
      rw [hrun] at h
      cases progress with
      | moved later => exact ih h
      | waiting later => exact ih h
      | finished other => exact h

/-- What is said of every end holds of an end that was come to. -/
theorem Completes.of_finished {post : α → Station τ → Prop}
    (h : Completes step state station post) (hclock : Unbounded clock)
    (hrun : pace step clock steps state station = (.finished result, final)) :
    post result final := by
  obtain ⟨steps', result', final', hrun', hpost⟩ := h clock hclock
  have hsame := (pace_of_finished hrun steps').symm.trans
    (Nat.add_comm steps steps' ▸ pace_of_finished hrun' steps)
  cases hsame
  exact hpost

end Course

namespace Line

/-- The complete lines of a piece of the stream, by themselves. -/
theorem splitRaw_front (bytes : Octets) :
    splitRaw ((splitRaw bytes).1.flatMap fun raw => raw ++ [lineFeed]) =
      ((splitRaw bytes).1, []) := by
  induction bytes with
  | nil => rfl
  | cons b bytes ih =>
    by_cases hfeed : b = lineFeed
    · simp [splitRaw, hfeed, ih]
    · cases hlines : (splitRaw bytes).1 with
      | nil => simp [splitRaw, hfeed, hlines]
      | cons line lines =>
        have hnext : (splitRaw (b :: bytes)).1 = (b :: line) :: lines := by
          simp [splitRaw, hfeed, hlines]
        have hjoin : ((b :: line) :: lines).flatMap (fun raw => raw ++ [lineFeed]) =
            b :: (line :: lines).flatMap fun raw => raw ++ [lineFeed] := by simp
        rw [hlines] at ih
        rw [hnext, hjoin, splitRaw, ih]
        simp [hfeed]

theorem exists_front (bytes : Octets) :
    ∃ front, bytes = front ++ (split bytes).2 ∧ split front = ((split bytes).1, []) := by
  refine ⟨(splitRaw bytes).1.flatMap fun raw => raw ++ [lineFeed],
    (splitRaw_join bytes).symm, ?_⟩
  simp only [split, splitRaw_front]

/-- A reply that is ended by a front part of it, without being read as a whole, ends with the text
of the final result, white space and a line feed, of which the latter two are left. -/
theorem Regular.left_of_concludes {command reply final early left : Octets}
    {lines : List Octets} {v : Verdict} (h : Regular command reply lines final v)
    (hlast : (split reply).1 = lines ++ [final]) (hleft : early ++ left = reply)
    (hconcludes : Concludes command early lines v) (hsome : left ≠ []) :
    (split early).1 = lines ∧ openVerdict? (split early).2 = some v ∧
      ∃ blanks, left = blanks ++ [lineFeed] ∧
        ∀ b ∈ blanks, Text.isAsciiBlank b.toNat = true := by
  obtain ⟨-, htrails⟩ := h.trails_of_concludes hlast hleft hconcludes
  rcases htrails with hnone | ⟨front, blanks, -, hblanks, hall⟩
  · exact absurd hnone hsome
  rcases hconcludes.2 with ⟨other, later, hlines, -⟩ | ⟨hlines, hopen⟩
  · have hrest := h.complete
    rw [← hleft, split_append] at hlast hrest
    simp only [hlines, List.append_assoc, List.cons_append, List.append_cancel_left_eq,
      List.cons.injEq, List.append_eq_nil_iff] at hlast
    have hnone := List.append_eq_nil_iff.mp (eq_nil_of_split (Prod.ext hlast.2.2 hrest))
    exact absurd hnone.2 hsome
  · exact ⟨hlines, hopen, blanks, hblanks, hall⟩

end Line

namespace Exchange

variable {τ : Type} [Transport τ]

/-- The transport of the station replies in time, and nothing stands between. -/
def Served (call : Call) (request reply : Octets) (station : Station τ) : Prop :=
  station.locked = false ∧ ∃ within wire, within ≤ call.timeout ∧
    Clear request reply within wire station

/-- The reply ends with `OK`, white space and a line feed, and a buffer of this size is full when
the data lines in front of it have been kept and a part of this white space has come in. -/
def FillsBehindVerdict (command reply : Octets) (lines : List Octets) (size : Nat) : Prop :=
  ∃ front blanks, reply = front ++ Octets.ofText "OK" ++ blanks ++ [Line.lineFeed] ∧
    Line.split front = (lines, []) ∧ (∀ b ∈ blanks, Text.isAsciiBlank b.toNat = true) ∧
    (Line.body command lines).length + 2 < size ∧
    size ≤ (Line.body command lines).length + 2 + blanks.length

variable {call : Call} {size : Nat} {reply : Octets} {lines : List Octets} {final : Octets}
  {verdict : Line.Verdict}

/-- If the smaller buffer had room for what was read of a reply up to its end, and the larger one
filled up, that happened behind the text of the final result. -/
theorem fills_of_overflows (hsize : call.size ≤ size)
    (hregular : Line.Regular (Octets.ofText call.command) reply lines final .accepted)
    (hlast : (Line.split reply).1 = lines ++ [final])
    {early left : Octets} (hsplit : early ++ left = reply)
    (hconfined : Confined call early)
    (hconcludes : Line.Concludes (Octets.ofText call.command) early lines .accepted)
    {read rest : Octets} (hsplit' : read ++ rest = reply)
    (hconfined' : Confined { call with size } read)
    (hunended : Line.Unended (Octets.ofText call.command) read)
    (hoverflows : Overflows { call with size } read) :
    FillsBehindVerdict (Octets.ofText call.command) reply lines size := by
  have hsmaller : Overflows call read := Nat.le_trans hsize hoverflows
  -- the larger buffer has taken in more than was read with the smaller one
  obtain ⟨more, rfl, rfl⟩ : ∃ more, read = early ++ more ∧ left = more ++ rest := by
    rcases List.append_eq_append_iff.mp (hsplit.trans hsplit'.symm) with h | ⟨more, hearly, -⟩
    · exact h
    · by_cases hmore : more = []
      · rw [hmore, List.append_nil] at hearly
        rw [← hearly] at hunended
        exact absurd hunended hconcludes.not_unended
      · exact absurd hsmaller (hconfined read more hearly.symm hmore)
  have hmore : more ≠ [] := by
    rintro rfl
    rw [List.append_nil] at hunended
    exact hconcludes.not_unended hunended
  have hrest := rest_ne_nil hregular hsplit' hunended
  obtain ⟨hlines, hopen, blanks, hblanks, hall⟩ :=
    hregular.left_of_concludes hlast hsplit hconcludes (by simp [hmore])
  have hok : (Line.split early).2 = Octets.ofText "OK" := by
    rcases Line.openVerdict?_cases (Line.lineFeed_notMem_rest early) hopen with h | h
    · exact h.1
    · cases h.2
  have hlength : more.length ≤ blanks.length := by
    have htotal := congrArg List.length hblanks
    have hpositive := List.length_pos_iff.mpr hrest
    rw [List.length_append, List.length_append, List.length_singleton] at htotal
    omega
  have hlower := hconfined' early more rfl hmore
  have hupper := hoverflows.length_le
  simp only [Overflows, hlines, hok] at hlower hupper
  obtain ⟨front, hfront, hsplitFront⟩ := Line.exists_front early
  rw [hok] at hfront
  rw [hlines] at hsplitFront
  refine ⟨front, blanks, ?_, hsplitFront, hall, ?_, ?_⟩
  · rw [← hfront, List.append_assoc, ← hblanks, hsplit]
  · exact Nat.lt_of_not_le hlower
  · exact Nat.le_trans hupper (Nat.add_le_add_left hlength _)

/-- What was returned from a smaller buffer is returned from a larger one, however the reply is cut
into reads for either, unless the larger one can be full of the end of the reply's last line. If that
happens the exchange fails, and the rest of the line is still to come. -/
theorem larger_buffer_agrees (call : Call) (size : Nat) (request reply : Octets)
    (lines : List Octets) (final : Octets) (verdict : Line.Verdict) (hsize : call.size ≤ size)
    (hrequest : call.request? = some request) (hreply : Line.split reply = (lines ++ [final], []))
    (hundecided : Line.Undecided (Octets.ofText call.command) lines)
    (hplain : ∀ line ∈ lines, ¬ Line.Misleading line)
    (hfinal : Line.kind (Octets.ofText call.command) final = .verdict verdict) :
    ∀ {τ τ' : Type} [Transport τ] [Transport τ'] (station : Station τ) (station' : Station τ'),
      Served call request reply station → Served call request reply station' →
      ∀ clock steps payload last, Course.Unbounded clock →
        Course.pace (step call) clock steps .queued station = (.finished (.ok payload), last) →
        Course.Completes (step { call with size }) .queued station' fun result last' =>
          result = .ok payload ∨
            FillsBehindVerdict (Octets.ofText call.command) reply lines size ∧
              result = .error .transport ∧ last'.alignment = .awaitingVerdict := by
  intro τ τ' _ _ station station' hserved hserved' clock steps payload last hclock hrun
  obtain ⟨hlocked, within, wire, hwithin, hclear⟩ := hserved
  obtain ⟨hlocked', within', wire', hwithin', hclear'⟩ := hserved'
  obtain ⟨hlines, hcomplete⟩ := Prod.mk.inj hreply
  have hregular : Line.Regular (Octets.ofText call.command) reply lines final verdict :=
    { complete := hcomplete
      lines_eq := ⟨[], hlines⟩
      undecided := hundecided
      plain := hplain
      final_kind := hfinal }
  obtain ⟨hconfined, hyields | hoverruns⟩ :=
    (finishes_of_clear hrequest hregular hwithin station hlocked hclear).of_finished hclock hrun
  case inr => cases hoverruns.result_eq
  obtain ⟨left, hleft, -⟩ := hyields.exists_left
  have hpayload := hyields.delivers.1
  cases verdict with
  | refused => cases hpayload
  | accepted =>
    have hrequest' : { call with size }.request? = some request := hrequest
    have hlarger := finishes_of_clear hrequest' hregular hwithin' station' hlocked' hclear'
    refine hlarger.imp fun result last' ⟨hconfined', hends⟩ => ?_
    rcases hends with hyields' | hoverruns'
    · exact Or.inl (hyields'.delivers.1.trans hpayload.symm)
    · obtain ⟨rest, hrest, -⟩ := hoverruns'.exists_left
      exact Or.inr ⟨fills_of_overflows hsize hregular hlines hleft hconfined hyields.concludes
        hrest hconfined' hoverruns'.unended hoverruns'.overflows, hoverruns'.result_eq,
        hoverruns'.alignment_eq⟩

/-- Eleven bytes are just enough for the data line and the text of the final result. -/
def tightCall : Call :=
  { functionalityCall with size := 11 }

theorem functionality_served {modem : Bench.Modem} (call : Call) (htimeout : 20 ≤ call.timeout)
    (hidle : Bench.Modem.Holds 0 piecemealRules [] modem) :
    Served call (Octets.ofText "AT+CFUN?\r\n") (Octets.ofText "+CFUN: 1\r\nOK\r\n")
      { transport := modem } :=
  ⟨rfl, 20, _, htimeout, functionality_clear .aligned hidle⟩

theorem not_fills_functionality :
    ¬ FillsBehindVerdict (Octets.ofText "AT+CFUN?") (Octets.ofText "+CFUN: 1\r\nOK\r\n")
      [Octets.ofText "+CFUN: 1"] 32 := by
  rintro ⟨front, blanks, hreply, -, -, -, hfull⟩
  have hlength := congrArg List.length hreply
  have hreplyLength : (Octets.ofText "+CFUN: 1\r\nOK\r\n").length = 14 := by decide
  have hbody : (Line.body (Octets.ofText "AT+CFUN?") [Octets.ofText "+CFUN: 1"]).length = 9 := by
    decide
  rw [hreplyLength] at hlength
  simp only [List.length_append, List.length_singleton] at hlength
  rw [hbody] at hfull
  omega

set_option maxRecDepth 8000 in
/-- What eleven bytes returned from three pieces, 32 bytes return byte by byte. -/
theorem larger_buffer_agrees_functionality :
    (∃ last, Course.pace (step tightCall) (fun n => 20 * n) 12 .queued
        { transport := piecemealModem } =
          (.finished (.ok (Octets.ofText "+CFUN: 1")), last)) ∧
      Course.Completes (step { tightCall with size := 32 }) .queued { transport := trickleModem }
        fun result _ => result = .ok (Octets.ofText "+CFUN: 1") := by
  have hrun : (Course.pace (step tightCall) (fun n => 20 * n) 12 .queued
      { transport := piecemealModem }).1 = .finished (.ok (Octets.ofText "+CFUN: 1")) := by cbv
  have hclock : Course.Unbounded fun n => 20 * n :=
    fun moment => ⟨moment, Nat.le_mul_of_pos_left moment (by decide)⟩
  refine ⟨⟨_, Prod.ext hrun rfl⟩, ?_⟩
  have hagrees := larger_buffer_agrees tightCall 32 (Octets.ofText "AT+CFUN?\r\n")
    (Octets.ofText "+CFUN: 1\r\nOK\r\n") [Octets.ofText "+CFUN: 1"] (Octets.ofText "OK") .accepted
    (by decide) (by decide) (by decide) functionality_regular.undecided functionality_regular.plain
    (by decide) { transport := piecemealModem } { transport := trickleModem }
    (functionality_served tightCall (by decide) ⟨.nil, rfl, by decide, rfl, rfl⟩)
    (functionality_served tightCall (by decide) ⟨.nil, rfl, by decide, rfl, rfl⟩)
    (fun n => 20 * n) 12 _ _ hclock (Prod.ext hrun rfl)
  refine hagrees.imp fun result last h => h.resolve_right fun hfills => ?_
  exact not_fills_functionality hfills.1

set_option maxRecDepth 8000 in
/-- A reply of nothing but `OK` and its line end: two bytes are filled with `OK`, which ends it,
three bytes with the carriage return as well, and then there is no room for the line feed. -/
theorem fails_with_larger_buffer :
    Line.split (Octets.ofText "OK\r\n") = ([] ++ [Octets.ofText "OK"], []) ∧
      Line.kind (Octets.ofText "AT+CGMR") (Octets.ofText "OK") = .verdict .accepted ∧
      (Course.follow (step { versionCall with size := 2 }) [0, 0, 0, 0, 0] .queued
        { transport := versionModem ["OK\r\n"] }).1 = .finished (.ok []) ∧
      (Course.follow (step { versionCall with size := 3 }) [0, 0, 0, 0, 0] .queued
        { transport := versionModem ["OK\r\n"] }).1 = .finished (.error .transport) := by
  refine ⟨by decide, by decide, ?_, ?_⟩
  · cbv
  · cbv

end Exchange

end CellModem
