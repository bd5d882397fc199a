import CellModem.Proofs.Conversation
import CellModem.Proofs.Cutting

/-!
A modem that replies to one request after the other, each time with a single line and `OK`. However
the bytes are cut into reads, every exchange takes its line out of them. The line end of the final
result may be left on the wire; then it is a blank line in front of the next reply. So a program
that asks for these lines is told them all, and comes to its end.
-/

namespace CellModem

/-- These requests are replied to one after the other, none of them before this moment, while these
bytes are still on the wire. What is not read of a reply stands in front of the next one. -/
def RepliesInTurn {τ : Type} [Transport τ] (within : Millis) :
    List (Octets × Octets) → (since : Millis) → (left : Octets) → τ → Prop
  | [], _, _, _ => True
  | (request, reply) :: later, since, left, transport =>
    ∀ now, since ≤ now →
      Replies request (left ++ reply) within now (RepliesInTurn within later now) transport

namespace Line

def lineEnd : Octets :=
  [carriageReturn, lineFeed]

/-- One line and the final result. -/
def response (line : Octets) : Octets :=
  line ++ lineEnd ++ Octets.ofText "OK" ++ lineEnd

/-- What passes for the one data line in the response to a command, wherever a read ends. -/
structure Sole (command line : Octets) : Prop where
  whole : lineFeed ∉ line
  data : kind command line = .data
  plain : ¬ Misleading line
  /-- The final result is no echo of the command. -/
  final : kind command (Octets.ofText "OK") = .verdict .accepted

/-- What may be on the wire when the next request is written. -/
def Remains (left : Octets) : Prop :=
  left = [] ∨ left = lineEnd

theorem split_line {line : Octets} (h : lineFeed ∉ line) (rest : Octets) :
    split (line ++ lineEnd ++ rest) = (line :: (split rest).1, (split rest).2) := by
  have hraw : lineFeed ∉ line ++ [carriageReturn] := by
    rw [List.mem_append, List.mem_singleton]
    exact not_or_intro h (by decide)
  have hnext : next? (line ++ lineEnd ++ rest) = some (line ++ [carriageReturn], rest) := by
    have hwhole := @next?_append _ rest hraw
    rw [List.append_assoc] at hwhole ⊢
    exact hwhole
  rw [split_of_next? hnext]
  simp [chomp]

theorem kind_nil (command : Octets) : kind command [] = .blank :=
  rfl

theorem Sole.split_response {command line : Octets} (h : Sole command line) :
    split (response line) = ([line, Octets.ofText "OK"], []) := by
  rw [response, List.append_assoc, split_line h.whole]
  rfl

/-- Behind the rest of an earlier response too, the line is all that the response says. -/
theorem Sole.regular {command line left : Octets} (h : Sole command line) (hleft : Remains left) :
    ∃ lines, (split (left ++ response line)).1 = lines ++ [Octets.ofText "OK"] ∧
      payload command lines = line ∧
      Regular command (left ++ response line) lines (Octets.ofText "OK") .accepted := by
  obtain ⟨lead, hlead, hsplit⟩ : ∃ lead : List Octets, (∀ line ∈ lead, line = []) ∧
      split (left ++ response line) = (lead ++ [line, Octets.ofText "OK"], []) := by
    rcases hleft with rfl | rfl
    · exact ⟨[], by simp, h.split_response⟩
    · refine ⟨[[]], by simp, ?_⟩
      rw [← List.nil_append lineEnd, split_line (by simp), h.split_response]
      rfl
  have hblank : ∀ line ∈ lead, kind command line = .blank := by
    intro line hline
    rw [hlead line hline, kind_nil]
  have hlines : (split (left ++ response line)).1 = lead ++ [line] ++ [Octets.ofText "OK"] := by
    rw [hsplit]
    simp
  refine ⟨lead ++ [line], hlines, ?_, ?_⟩
  · have hnone : dataLines command lead = [] := by
      refine List.filter_eq_nil_iff.mpr fun line hline => ?_
      simp [hblank line hline]
    have hone : dataLines command [line] = [line] := by
      simp [dataLines, h.data]
    rw [payload, dataLines, List.filter_append]
    change [lineFeed].intercalate (dataLines command lead ++ dataLines command [line]) = line
    rw [hnone, hone]
    simp
  · refine ⟨congrArg Prod.snd hsplit, ⟨[], hlines⟩, ?_, ?_, h.final⟩
    · intro other hother v
      rcases List.mem_append.mp hother with hmem | hmem
      · simp [hblank other hmem]
      · simp [List.mem_singleton.mp hmem, h.data]
    · intro other hother
      rcases List.mem_append.mp hother with hmem | hmem
      · rw [hlead other hmem]
        rintro (⟨more, hmore⟩ | ⟨more, hmore⟩) <;> cases hmore
      · rw [List.mem_singleton.mp hmem]
        exact h.plain

/-- Nothing but its line end is left behind the final result. -/
theorem remains_of_trails {front left : Octets}
    (h : Trails (Octets.ofText "OK") (front ++ Octets.ofText "OK" ++ lineEnd) left) :
    Remains left := by
  rcases h with rfl | ⟨before, blanks, hwhole, rfl, hblanks⟩
  · exact Or.inl rfl
  · -- read from its end, the response is a line feed, this white space, and the letters of `OK`
    have htrim : (Octets.ofText "OK").trim = Octets.ofText "OK" := by decide
    have hok : Octets.ofText "OK" = [79, 75] := by decide
    rw [htrim, hok] at hwhole
    have hreverse := congrArg List.reverse hwhole
    simp only [lineEnd, List.reverse_append, List.reverse_cons, List.reverse_nil,
      List.nil_append, List.cons_append, List.append_assoc, List.cons.injEq, true_and] at hreverse
    rcases List.eq_nil_or_concat blanks with rfl | ⟨others, b, rfl⟩
    · cases hreverse
    · simp only [List.concat_eq_append, List.reverse_append, List.reverse_cons, List.reverse_nil,
        List.nil_append, List.cons_append, List.cons.injEq] at hreverse
      obtain ⟨rfl, hreverse⟩ := hreverse
      rcases List.eq_nil_or_concat others with rfl | ⟨rest, c, rfl⟩
      · exact Or.inr rfl
      · simp only [List.concat_eq_append, List.reverse_append, List.reverse_cons,
          List.reverse_nil, List.nil_append, List.cons_append, List.cons.injEq] at hreverse
        have hc := hblanks c (by simp)
        rw [← hreverse.1] at hc
        cases hc

end Line

namespace Station

variable {τ : Type} [Transport τ]

/-- No operation takes time. -/
theorem active_now : Active fun first last : Station τ => last.now = first.now where
  refl _ := rfl
  trans hfirst hlast := hlast.trans hfirst
  lock _ := rfl
  unlock _ := rfl
  align _ _ := rfl
  publishAll station purpose signals := by rw [publishAll_eq]
  probe _ := rfl
  read _ purpose _ := (noteRead_transport _ purpose _).2
  write _ request := (noteWrite_transport _ request _).2
  awaitWrite _ request := (noteWrite_transport _ request _).2
  flush _ := (noteFlush_transport _ _).2
  awaitFlush _ := (noteFlush_transport _ _).2

end Station

namespace Exchange

variable {τ : Type} [Transport τ]

/-- An exchange ends no earlier than it began. -/
theorem completes_later {call : Call} {stage : Stage} {station : Station τ}
    {post : Result → Station τ → Prop} (h : Course.Completes (step call) stage station post) :
    Course.Completes (step call) stage station fun result final =>
      post result final ∧ station.now ≤ final.now := by
  let invariant : Stage → Station τ → Prop := fun _ last => station.now ≤ last.now
  have htime : ∀ stage (next : Station τ) moment, invariant stage next →
      invariant stage (next.passTo moment) :=
    fun _ next moment hnext => Nat.le_trans hnext (Nat.le_max_left next.now moment)
  refine h.upholds ?_ htime (Nat.le_refl station.now)
  intro stage next hnext
  refine Course.meets_of_station (fun last : Station τ => station.now ≤ last.now) ?_
  rw [step_relates Station.active_now call stage next]
  exact hnext

/-- An exchange is told the line that is replied, and is ready for the next one. -/
theorem completes_of_sole {call : Call} {request line left : Octets} {within : Millis}
    {wire : Octets → τ → Prop} (hrequest : call.request? = some request)
    (hsole : Line.Sole (Octets.ofText call.command) line) (hleft : Line.Remains left)
    (hsize : line.length + 8 < call.size) (hwithin : within ≤ call.timeout) (station : Station τ)
    (hlocked : station.locked = false) (haligned : station.alignment = .aligned)
    (hreplies : Replies request (left ++ Line.response line) within station.now wire
      station.transport) :
    Course.Completes (step call) .queued station fun result final =>
      result = .ok line ∧ final.locked = false ∧ final.alignment = .aligned ∧
        station.now ≤ final.now ∧ ∃ left, Line.Remains left ∧ wire left final.transport := by
  obtain ⟨lines, hlines, hpayload, hregular⟩ := hsole.regular hleft
  have hlength : (left ++ Line.response line).length < call.size := by
    have hfront : left.length ≤ 2 := by
      rcases hleft with rfl | rfl <;> decide
    have hresponse : (Line.response line).length = line.length + 6 := by
      simp [Line.response, Line.lineEnd, Octets.length_ofText]
      rfl
    rw [List.length_append, hresponse]
    omega
  have hyields := yields_of_clear hrequest hregular hlength hwithin station hlocked
    (Or.inl ⟨haligned, hreplies⟩)
  refine (completes_later hyields).imp ?_
  rintro result final ⟨h, hlater⟩
  obtain ⟨hresult, hfree, -, -⟩ := h.delivers
  obtain ⟨rest, hrest, hwire⟩ := h.exists_left
  obtain ⟨huncut, htrails⟩ := hregular.trails_of_concludes hlines hrest h.concludes
  rw [hpayload] at hresult
  rw [Line.response, ← List.append_assoc, ← List.append_assoc] at htrails
  exact ⟨hresult, hfree, h.aligned_or_cut.resolve_right huncut, hlater, rest,
    Line.remains_of_trails htrails, hwire⟩

/-- A call whose request is the next one of a script, and whose response tells this line. -/
structure Scripted (within : Millis) (line : Octets) (call : Call) (exchange : Octets × Octets) :
    Prop where
  request : call.request? = some exchange.1
  reply : exchange.2 = Line.response line
  sole : Line.Sole (Octets.ofText call.command) line
  short : line.length + 8 < call.size
  inTime : within ≤ call.timeout

end Exchange

namespace Conversation

variable {α τ : Type} [Transport τ]

/-- A station on which these calls will be told their lines. -/
structure Awaits (within : Millis) (line : Call → Octets) (calls : List Call)
    (station : Station τ) : Prop where
  unlocked : station.locked = false
  aligned : station.alignment = .aligned
  script : ∃ script since left,
    List.Forall₂ (fun call => Exchange.Scripted within (line call) call) calls script ∧
      since ≤ station.now ∧ Line.Remains left ∧
      RepliesInTurn within script since left station.transport

theorem Awaits.completes {within : Millis} {line : Call → Octets} {call : Call}
    {later : List Call} {station : Station τ} (h : Awaits within line (call :: later) station) :
    Course.Completes (Exchange.step call) .queued station fun result final =>
      result = .ok (line call) ∧ Awaits within line later final := by
  obtain ⟨script, since, left, htold, hsince, hleft, hreplies⟩ := h.script
  cases htold with
  | cons htells hlater =>
    rename_i exchange others
    obtain ⟨request, reply⟩ := exchange
    obtain ⟨hrequest, rfl, hsole, hshort, hinTime⟩ := htells
    refine (Exchange.completes_of_sole hrequest hsole hleft hshort hinTime station h.unlocked
      h.aligned (hreplies station.now hsince)).imp ?_
    rintro result final ⟨hresult, hfree, haligned, hnow, rest, hrest, hwire⟩
    exact ⟨hresult, hfree, haligned, others, station.now, rest, hlater, hnow, hrest, hwire⟩

/-- A program that goes on as said when its calls are told these lines ends as said. -/
theorem completes_of_told {within : Millis} {line : Call → Octets} {post : α → Prop}
    {program : Dialogue α} {calls : List Call}
    (h : program.Leads (fun call result => result = .ok (line call)) post calls)
    {station : Station τ} (hawaits : Awaits within line calls station) :
    Course.Completes step { program } station fun value _ => post value := by
  have hexchange : ∀ call later (station : Station τ), Awaits within line (call :: later) station →
      Course.Completes (Exchange.step call) .queued station fun result final =>
        result = .ok (line call) ∧ Awaits within line later final :=
    fun _ _ _ hnext => hnext.completes
  exact (completes_of_calls hexchange h hawaits).imp fun _ _ hends => hends.1

end Conversation

namespace Bench.Modem

/-- A modem that has one reply to each request of a script replies in turn. -/
theorem repliesInTurn {rules : List Rule} {within : Millis} {script : List (Octets × Octets)}
    (hrules : ∀ exchange ∈ script, ∃ drafts : List Draft,
      reply? (bareRequest exchange.1) rules = some (drafts, rules) ∧
      ∀ now, Carries (now + within)
        (drafts.map fun draft => ⟨draft.content, now + draft.delay⟩) exchange.2)
    {since due : Millis} {left : Octets} {modem : Modem} (hdue : due ≤ since + within)
    (hholds : Holds due rules left modem) : RepliesInTurn within script since left modem := by
  induction script generalizing since due left modem with
  | nil => trivial
  | cons exchange later ih =>
    intro now hnow
    obtain ⟨drafts, hrule, hcarries⟩ := hrules exchange List.mem_cons_self
    refine (replies_behind hholds (Nat.le_trans hdue (Nat.add_le_add_right hnow within)) hrule
      (hcarries now)).imp fun rest next hnext => ?_
    exact ih (fun other hother => hrules other (List.mem_cons_of_mem exchange hother))
      (Nat.le_refl _) hnext

end Bench.Modem

end CellModem
