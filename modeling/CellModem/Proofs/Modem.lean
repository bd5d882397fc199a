import CellModem.Bench.Modem
import CellModem.Proofs.Transport

/-!
The scripted modem is a transport that answers, as long as its packets are data and come in time.
-/

namespace CellModem.Bench

/-- These packets are data that has come in by `due`, and make up `bytes`. -/
inductive Carries (due : Millis) : List Packet → Octets → Prop where
  | nil : Carries due [] []
  | cons {arrival : Millis} {front rest : Octets} {wire : List Packet} (hfront : front ≠ [])
      (harrival : arrival ≤ due) (hrest : Carries due wire rest) :
      Carries due ({ content := .data front, arrival } :: wire) (front ++ rest)

theorem Carries.wire_eq_nil {due : Millis} {wire : List Packet} (h : Carries due wire []) :
    wire = [] := by
  generalize hbytes : ([] : Octets) = bytes at h
  cases h with
  | nil => rfl
  | cons hfront =>
    have hempty := (List.append_eq_nil_iff.mp hbytes.symm).1
    exact absurd hempty hfront

theorem Carries.mono {due due' : Millis} {wire : List Packet} {bytes : Octets}
    (h : Carries due wire bytes) (hdue : due ≤ due') : Carries due' wire bytes := by
  induction h with
  | nil => exact .nil
  | cons hfront harrival hrest ih => exact .cons hfront (Nat.le_trans harrival hdue) ih

theorem Carries.append {due : Millis} {wire wire' : List Packet} {bytes bytes' : Octets}
    (h : Carries due wire bytes) (h' : Carries due wire' bytes') :
    Carries due (wire ++ wire') (bytes ++ bytes') := by
  induction h with
  | nil => exact h'
  | cons hfront harrival hrest ih =>
    rw [List.append_assoc]
    exact .cons hfront harrival ih

namespace Modem

/-- The modem has `bytes` on the wire, all of which have come in by `due`, and takes whatever is
written to it. -/
structure Holds (due : Millis) (rules : List Rule) (bytes : Octets) (modem : Modem) : Prop where
  carries : Carries due modem.wire bytes
  waits : modem.endsWhenIdle = false
  yields : modem.chunk ≠ some 0
  accepts : modem.writes = []
  rules_eq : modem.rules = rules

/-- A read takes a front part of the first packet. -/
theorem conveys (due : Millis) (rules : List Rule) : Conveys due (Holds due rules) := by
  intro bytes modem now room hholds hroom
  obtain ⟨hcarries, hwaits, hyields, haccepts, hrules⟩ := hholds
  change Settles _ _ _ (modem.read now room)
  unfold Modem.read
  cases hwire : modem.wire with
  | nil =>
    rw [hwire] at hcarries
    cases hcarries
    simp only [hwaits]
    exact ⟨Or.inl trivial, hwire ▸ .nil, hwaits, hyields, haccepts, hrules⟩
  | cons packet wire =>
    rw [hwire] at hcarries
    cases hcarries with
    | cons hfront harrival hrest =>
      rename_i arrival front rest
      by_cases hearly : now < arrival
      · simp only [hearly, if_true]
        exact ⟨Or.inr (Nat.lt_of_lt_of_le hearly harrival),
          hwire ▸ .cons hfront harrival hrest, hwaits, hyields, haccepts, hrules⟩
      · simp only [hearly, if_false]
        have hcount : 0 < min room (modem.chunk.getD front.length) := by
          have hlength := List.length_pos_iff.mpr hfront
          cases hchunk : modem.chunk with
          | none => exact Nat.lt_min.mpr ⟨hroom, hlength⟩
          | some size =>
            have hsize : size ≠ 0 := fun hzero => hyields (by rw [hchunk, hzero])
            exact Nat.lt_min.mpr ⟨hroom, Nat.pos_of_ne_zero hsize⟩
        have htaken : front.take (min room (modem.chunk.getD front.length)) ≠ [] := by
          intro hnil
          rcases List.take_eq_nil_iff.mp hnil with hzero | hempty
          · omega
          · exact hfront hempty
        refine ⟨htaken, front.drop (min room (modem.chunk.getD front.length)) ++ rest, ?_, ?_, hwaits,
          hyields, haccepts, hrules⟩
        · rw [← List.append_assoc, List.take_append_drop]
        · by_cases hleft : front.drop (min room (modem.chunk.getD front.length)) = []
          · simp only [hleft, List.isEmpty_nil, if_true, List.nil_append]
            exact hrest
          · simp only [List.isEmpty_iff, hleft, if_false]
            exact .cons hleft harrival hrest

/-- A modem with a rule for a request replies to it, behind what is on the wire. -/
theorem replies_behind {modem : Modem} {request bytes reply : Octets} {due within now : Millis}
    {drafts : List Draft} {rules left : List Rule} (hholds : Holds due rules bytes modem)
    (hdue : due ≤ now + within)
    (hrule : reply? (bareRequest request) rules = some (drafts, left))
    (hcarries : Carries (now + within)
      (drafts.map fun draft => ⟨draft.content, now + draft.delay⟩) reply) :
    Replies request (bytes ++ reply) within now (Holds (now + within) left) modem := by
  let stands : Phase → Modem → Prop := fun phase modem =>
    match phase with
    | .writing | .flushing => False
    | .written => modem.flush = .pass ∧ Holds (now + within) left (bytes ++ reply) modem
    | .conveying bytes => Holds (now + within) left bytes modem
  refine ⟨stands, ⟨?_, ?_, ?_, conveys (now + within) left⟩, ?_, fun _ _ h => h⟩
  · intro transport moment h
    exact h.elim
  · rintro transport moment ⟨hpass, hholds⟩
    change Settles _ _ _ transport.flushed
    simp only [flushed, hpass]
    exact hholds
  · intro transport moment h
    exact h.elim
  · change Settles _ _ _ (modem.write now request)
    simp only [Modem.write, hholds.accepts, List.headD_nil, List.drop_nil, accept, hholds.rules_eq,
      hrule, queue]
    exact ⟨rfl, rfl, (hholds.carries.mono hdue).append hcarries, hholds.waits, hholds.yields, rfl,
      rfl⟩

/-- And with an empty wire, with nothing in front of the reply. -/
theorem replies {modem : Modem} {request reply : Octets} {due within now : Millis}
    {drafts : List Draft} {rules left : List Rule} (hidle : Holds due rules [] modem)
    (hrule : reply? (bareRequest request) rules = some (drafts, left))
    (hcarries : Carries (now + within)
      (drafts.map fun draft => ⟨draft.content, now + draft.delay⟩) reply) :
    Replies request reply within now (Holds (now + within) left) modem := by
  have hwire := hidle.carries.wire_eq_nil
  have hsoon : Holds (now + within) rules [] modem :=
    ⟨hwire ▸ .nil, hidle.waits, hidle.yields, hidle.accepts, hidle.rules_eq⟩
  exact replies_behind hsoon (Nat.le_refl _) hrule hcarries

end Modem

end CellModem.Bench
