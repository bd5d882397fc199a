import CellModem.Proofs.Isolation

/-!
A response comes to the same however it is cut into reads. An exchange may stop reading behind the
text of the final result; then the line end stays on the wire, with the white space in front of it.
For lines that begin like a final result it does matter where a read ends.
-/

namespace CellModem

namespace Octets

theorem trim_concat {b : UInt8} (bytes : Octets) (h : Text.isAsciiBlank b.toNat = true) :
    trim (bytes ++ [b]) = trim bytes := by
  unfold trim
  simp only [List.dropWhile_append]
  split
  case isTrue hnone => simp [h, List.isEmpty_iff.mp hnone]
  case isFalse hsome => simp [h]

/-- Behind what is left by trimming, there is only white space. -/
theorem blank_of_trim {b : UInt8} {front back : Octets}
    (hhead : Text.isAsciiBlank b.toNat = false) (h : trim (b :: front ++ back) = b :: front) :
    ∀ c ∈ back, Text.isAsciiBlank c.toNat = true := by
  let blank := fun c : UInt8 => Text.isAsciiBlank c.toNat
  have hstart : (b :: front ++ back).dropWhile blank = b :: front ++ back := by
    rw [List.cons_append]
    exact List.dropWhile_cons_of_neg (by simp [blank, hhead])
  have hreverse : (b :: front ++ back).reverse.dropWhile blank = (b :: front).reverse := by
    change ((((b :: front ++ back).dropWhile blank).reverse).dropWhile blank).reverse = _ at h
    rw [hstart] at h
    exact List.reverse_eq_iff.mp h
  have hwhole : (b :: front ++ back).reverse.takeWhile blank ++
      (b :: front ++ back).reverse.dropWhile blank = (b :: front ++ back).reverse :=
    List.takeWhile_append_dropWhile
  rw [hreverse, List.reverse_append] at hwhole
  have hback := List.append_cancel_right hwhole
  intro c hc
  rw [← List.mem_reverse, ← hback] at hc
  exact (List.mem_takeWhile_imp hc : blank c = true)

end Octets

namespace Line

theorem trim_chomp (raw : Octets) : (chomp raw).trim = raw.trim := by
  unfold chomp
  split
  case isTrue hlast =>
    obtain ⟨front, rfl⟩ := List.getLast?_eq_some_iff.mp hlast
    rw [List.dropLast_concat]
    exact (Octets.trim_concat front (by decide)).symm
  case isFalse => rfl

/-- What of a reply is left behind its final result: nothing, or what stands between the text of
the final result and its line end. -/
def Trails (final reply left : Octets) : Prop :=
  left = [] ∨ ∃ front blanks, reply = front ++ final.trim ++ left ∧ left = blanks ++ [lineFeed] ∧
    ∀ b ∈ blanks, Text.isAsciiBlank b.toNat = true

/-- Bytes that make up one line consist of it and its line feed. -/
theorem eq_concat_of_split {bytes line : Octets} (h : split bytes = ([line], [])) :
    ∃ raw, bytes = raw ++ [lineFeed] ∧ chomp raw = line ∧ (splitRaw bytes).1 = [raw] := by
  obtain ⟨hlines, hrest⟩ := Prod.mk.inj h
  obtain ⟨raw, hraw, hline⟩ := List.map_eq_singleton_iff.mp hlines
  have hjoin := splitRaw_join bytes
  rw [hraw, hrest, List.flatMap_singleton, List.append_nil] at hjoin
  exact ⟨raw, hjoin.symm, hline, hraw⟩

/-- The line that begins with an unfinished final result says no more than this, if it is one. -/
theorem trim_of_open {command final rest left : Octets} {v w : Verdict}
    (hfeed : lineFeed ∉ rest) (hopen : openVerdict? rest = some v)
    (hsplit : split (rest ++ left) = ([final], [])) (hfinal : kind command final = .verdict w) :
    final.trim = rest ∧ ∃ b more, rest = b :: more ∧ Text.isAsciiBlank b.toNat = false := by
  have hlines : (split (rest ++ left)).1 = [final] := congrArg Prod.fst hsplit
  rcases openVerdict?_cases hfeed hopen with ⟨rfl, -⟩ | ⟨rfl, -⟩
  · have hstarts := prefix_of_split_append hfeed (by decide) hlines
    exact ⟨((trim_of_misleading hfinal).1 hstarts).1, 79, [75], by decide, by decide⟩
  · have hstarts := prefix_of_split_append hfeed (by decide) hlines
    exact ⟨((trim_of_misleading hfinal).2 hstarts).1, 69, [82, 82, 79, 82], by decide, by decide⟩

/-- And it lacks nothing but white space and the line end. -/
theorem trails_of_open {command final rest left : Octets} {v w : Verdict} (front : Octets)
    (hfeed : lineFeed ∉ rest) (hopen : openVerdict? rest = some v)
    (hsplit : split (rest ++ left) = ([final], [])) (hfinal : kind command final = .verdict w) :
    Trails final (front ++ rest ++ left) left := by
  obtain ⟨htrim, b, more, hhead, hblank⟩ := trim_of_open hfeed hopen hsplit hfinal
  obtain ⟨raw, hraw, hline, hlines⟩ := eq_concat_of_split hsplit
  obtain ⟨blanks, rfl⟩ := splitRaw_append_cons hfeed hlines
  rw [List.append_assoc] at hraw
  have hspace : (rest ++ blanks).trim = rest := by
    rw [← trim_chomp, hline, htrim]
  rw [hhead] at hspace
  refine Or.inr ⟨front, blanks, ?_, List.append_cancel_left hraw, ?_⟩
  · rw [htrim]
  · exact Octets.blank_of_trim hblank hspace

/-- If the only final result of a reply is its last line, any front part of the reply that ends it
leaves no line of it cut, and nothing but the end of this last line. -/
theorem Regular.trails_of_concludes {command reply final early left : Octets}
    {lines : List Octets} {v : Verdict} (h : Regular command reply lines final v)
    (hlast : (split reply).1 = lines ++ [final]) (hleft : early ++ left = reply)
    (hconcludes : Concludes command early lines v) :
    ¬ Cut command early ∧ Trails final reply left := by
  have hrest := h.complete
  rw [← hleft, split_append] at hlast hrest
  rcases hconcludes.2 with ⟨other, later, hlines, -⟩ | ⟨hlines, hopen⟩
  -- A final result with its line end is the last line of the reply, and nothing comes behind it.
  · simp only [hlines, List.append_assoc, List.cons_append, List.append_cancel_left_eq,
      List.cons.injEq, List.append_eq_nil_iff] at hlast
    obtain ⟨hnone, hleft⟩ := List.append_eq_nil_iff.mp (eq_nil_of_split (Prod.ext hlast.2.2 hrest))
    exact ⟨fun hcut => hcut.2 hnone, Or.inl hleft⟩
  -- Without its line end, it is the unfinished front of this line.
  · have hundecided := hconcludes.1
    rw [hlines] at hlast
    have hsplit : split ((split early).2 ++ left) = ([final], []) :=
      Prod.ext (List.append_cancel_left hlast) hrest
    constructor
    · rintro ⟨hended, -⟩
      rw [hlines] at hended
      exact hended hundecided
    · have htrails := trails_of_open ((splitRaw early).1.flatMap fun raw => raw ++ [lineFeed])
        (lineFeed_notMem_rest early) hopen hsplit h.final_kind
      rw [splitRaw_join, hleft] at htrails
      exact htrails

end Line

namespace Exchange

variable {τ : Type} [Transport τ]

/-- Nothing stands between a request and its reply: the stream is aligned, or nothing comes in of
what was given up before. -/
def Clear (request reply : Octets) (within : Millis) (wire : Octets → τ → Prop)
    (station : Station τ) : Prop :=
  station.alignment = .aligned ∧
      Replies request reply within station.now wire station.transport ∨
    ∃ due holds, Conveys due holds ∧ holds [] station.transport ∧
      ∀ now transport, holds [] transport → Replies request reply within now wire transport

variable {call : Call} {request reply : Octets} {lines : List Octets} {final : Octets}
  {verdict : Line.Verdict} {within : Millis} {wire : Octets → τ → Prop}

theorem finishes_of_replies
    (hregular : Line.Regular (Octets.ofText call.command) reply lines final verdict)
    (hwithin : within ≤ call.timeout) (station : Station τ)
    (hlocked : station.locked = true) (haligned : station.alignment = .aligned)
    (hreplies : Replies request reply within station.now wire station.transport) :
    Course.Completes (step call) (startSending call request station) station
      (Finishes call station.requests request reply lines verdict wire) := by
  obtain ⟨stands, hanswers, hsettles, hwire⟩ := hreplies
  refine (finishes_sending hregular hwithin station hlocked haligned hanswers hsettles).imp ?_
  exact fun result last h => h.imp fun bytes _ hstands => hwire bytes _ hstands

/-- An exchange that obtains the lock ends as the reply says, if its buffer has room, and if need be
after a wait for a leftover that does not come. -/
theorem finishes_of_clear (hrequest : call.request? = some request)
    (hregular : Line.Regular (Octets.ofText call.command) reply lines final verdict)
    (hwithin : within ≤ call.timeout) (station : Station τ)
    (hlocked : station.locked = false) (hclear : Clear request reply within wire station) :
    Course.Completes (step call) .queued station
      (Finishes call station.requests request reply lines verdict wire) := by
  have hrequests : station.lock.requests = station.requests := Station.requests_record rfl
  rw [← hrequests]
  by_cases haligned : station.alignment = .aligned
  · have hreplies : Replies request reply within station.now wire station.transport := by
      rcases hclear with ⟨-, hreplies⟩ | ⟨due, holds, -, hholds, hreplies⟩
      · exact hreplies
      · exact hreplies station.now station.transport hholds
    apply Course.completes_of_moved (step_of_aligned hrequest hlocked haligned)
    exact finishes_of_replies hregular hwithin station.lock rfl haligned hreplies
  · obtain ⟨due, holds, hconveys, hholds, hreplies⟩ :=
      hclear.resolve_left fun h => haligned h.1
    have howns : Owns station.lock.requests holds [] station.lock := ⟨rfl, rfl, hholds⟩
    apply Course.completes_of_moved (step_of_unaligned hrequest hlocked haligned)
    apply (reaches_of_nothing hconveys _ room_of_empty howns).completes
    rintro stage later ⟨rfl, hcleared, hlater⟩
    have hfinishes := finishes_of_replies hregular hwithin later hlater.locked hcleared
      (hreplies _ _ hlater.transport)
    rw [hlater.requests_eq] at hfinishes
    exact hfinishes

/-- With a reply that is shorter than the buffer there is room. -/
theorem yields_of_clear (hrequest : call.request? = some request)
    (hregular : Line.Regular (Octets.ofText call.command) reply lines final verdict)
    (hsize : reply.length < call.size) (hwithin : within ≤ call.timeout) (station : Station τ)
    (hlocked : station.locked = false) (hclear : Clear request reply within wire station) :
    Course.Completes (step call) .queued station
      (Yields call station.requests request reply lines verdict wire) :=
  (finishes_of_clear hrequest hregular hwithin station hlocked hclear).imp
    fun _ _ hfinishes => hfinishes.yields hsize

/-- However a reply is cut into reads, and whatever it is that cuts it, an exchange returns what its
lines say and leaves an aligned stream, with at most the end of the last line still to come. -/
theorem independent_of_cutting (call : Call) (request reply : Octets) (lines : List Octets)
    (final : Octets) (verdict : Line.Verdict) (hrequest : call.request? = some request)
    (hreply : Line.split reply = (lines ++ [final], []))
    (hundecided : Line.Undecided (Octets.ofText call.command) lines)
    (hplain : ∀ line ∈ lines, ¬ Line.Misleading line)
    (hfinal : Line.kind (Octets.ofText call.command) final = .verdict verdict)
    (hsize : reply.length < call.size) :
    ∀ {τ : Type} [Transport τ] (station : Station τ) (within : Millis) (wire : Octets → τ → Prop),
      station.locked = false → within ≤ call.timeout → Clear request reply within wire station →
      Course.Completes (step call) .queued station fun result last =>
        result = conclusion verdict (Line.payload (Octets.ofText call.command) lines) ∧
          last.locked = false ∧ last.alignment = .aligned ∧
          ∃ left, last.reply ++ left = reply ∧ wire left last.transport ∧
            Line.Trails final reply left := by
  intro τ _ station within wire hlocked hwithin hclear
  obtain ⟨hlines, hcomplete⟩ := Prod.mk.inj hreply
  have hregular : Line.Regular (Octets.ofText call.command) reply lines final verdict :=
    { complete := hcomplete
      lines_eq := ⟨[], hlines⟩
      undecided := hundecided
      plain := hplain
      final_kind := hfinal }
  have hyields := yields_of_clear hrequest hregular hsize hwithin station hlocked hclear
  apply hyields.imp
  intro result last h
  obtain ⟨hresult, hfree, -, -⟩ := h.delivers
  obtain ⟨left, hleft, hwire⟩ := h.exists_left
  obtain ⟨huncut, htrails⟩ := hregular.trails_of_concludes hlines hleft h.concludes
  exact ⟨hresult, hfree, h.aligned_or_cut.resolve_right huncut, left, hleft, hwire, htrails⟩

/-- The same replies, byte by byte. -/
def trickleModem : Bench.Modem :=
  { piecemealModem with chunk := some 1 }

theorem functionality_clear (alignment : Alignment) {modem : Bench.Modem}
    (hidle : Bench.Modem.Holds 0 piecemealRules [] modem) :
    Clear (Octets.ofText "AT+CFUN?\r\n") (Octets.ofText "+CFUN: 1\r\nOK\r\n") 20
      (fun bytes modem => ∃ due, Bench.Modem.Holds due piecemealRules bytes modem)
      { transport := modem, alignment } := by
  refine Or.inr ⟨0, Bench.Modem.Holds 0 piecemealRules, Bench.Modem.conveys 0 _, hidle, ?_⟩
  intro now other hother
  exact (piecemeal_replies 0 hother).imp fun _ _ hholds => ⟨now + 20, hholds⟩

/-- In three pieces or byte by byte, on an aligned stream or after a command that was given up. -/
theorem independent_of_cutting_piecemeal :
    Course.Completes (step functionalityCall) .queued { transport := piecemealModem }
        (fun result last => result = .ok (Octets.ofText "+CFUN: 1") ∧ last.alignment = .aligned) ∧
      Course.Completes (step functionalityCall) .queued
        { transport := trickleModem, alignment := .awaitingVerdict }
        (fun result last => result = .ok (Octets.ofText "+CFUN: 1") ∧ last.alignment = .aligned) := by
  have hends : ∀ (alignment : Alignment) (modem : Bench.Modem),
      Bench.Modem.Holds 0 piecemealRules [] modem →
      Course.Completes (step functionalityCall) .queued { transport := modem, alignment }
        fun result last =>
          result = .ok (Octets.ofText "+CFUN: 1") ∧ last.alignment = .aligned := by
    intro alignment modem hidle
    have hindependent := independent_of_cutting functionalityCall (Octets.ofText "AT+CFUN?\r\n")
      (Octets.ofText "+CFUN: 1\r\nOK\r\n") [Octets.ofText "+CFUN: 1"] (Octets.ofText "OK")
      .accepted (by decide) (by decide) functionality_regular.undecided functionality_regular.plain
      (by decide) (by decide) { transport := modem, alignment } 20 _ rfl (by decide)
      (functionality_clear alignment hidle)
    apply hindependent.imp
    intro result last h
    exact ⟨h.1, h.2.2.1⟩
  exact ⟨hends .aligned piecemealModem ⟨.nil, rfl, by decide, rfl, rfl⟩,
    hends .awaitingVerdict trickleModem ⟨.nil, rfl, by decide, rfl, rfl⟩⟩

/-- A modem whose reply to `AT+CGMR` comes in these pieces. -/
def versionModem (pieces : List String) : Bench.Modem where
  rules :=
    [{ request := Octets.ofText "AT+CGMR"
       replies := [pieces.map fun piece => { content := .data (Octets.ofText piece) }] }]

set_option maxRecDepth 8000 in
/-- The first two bytes of a line `OK-1` pass for the final result if a read ends there. And white
space behind the final result is left on the wire as well as the line end. -/
theorem misled_by_cutting :
    Line.split (Octets.ofText "OK-1\r\nOK\r\n") =
        ([Octets.ofText "OK-1"] ++ [Octets.ofText "OK"], []) ∧
      Line.kind (Octets.ofText "AT+CGMR") (Octets.ofText "OK-1") = .data ∧
      (Course.follow (step versionCall) [0, 0, 0, 0] .queued
        { transport := versionModem ["OK-1\r\nOK\r\n"] }).1 =
          .finished (.ok (Octets.ofText "OK-1")) ∧
      (Course.follow (step versionCall) [0, 0, 0, 0] .queued
        { transport := versionModem ["OK", "-1\r\nOK\r\n"] }).1 = .finished (.ok []) ∧
      (Course.follow (step versionCall) [0, 0, 0, 0] .queued
        { transport := versionModem ["OK", " \r\n"] }).2.transport.wire =
          [{ content := .data (Octets.ofText " \r\n"), arrival := 0 }] := by
  refine ⟨by decide, by decide, ?_, ?_, ?_⟩
  · cbv
  · cbv
  · cbv

end Exchange

end CellModem
