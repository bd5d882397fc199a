import CellModem.Proofs.Deeds
import CellModem.Proofs.Dialogue

/-!
What a conversation comes to, from what its exchanges come to. A program that makes the same calls
as long as their results are as expected ends as said, whoever else is at the station; and if every
exchange comes to an end in time, so does the whole conversation.
-/

namespace CellModem

namespace Course

variable {τ σ α : Type}

/-- What every step preserves, whatever the station, holds at every point of a run that others
disturb. -/
theorem amid_meets {step : Course τ σ α} {invariant : σ → Prop} {post : α → Prop}
    (hstep : ∀ state station, invariant state →
      Meets (fun state _ => invariant state) (fun result _ => post result) (step state station))
    (changes : List (Station τ → Station τ)) (state : σ) (station : Station τ)
    (h : invariant state) :
    Meets (fun state _ => invariant state) (fun result _ => post result)
      (amid step changes state station) := by
  induction changes generalizing state station with
  | nil => exact h
  | cons change changes ih =>
    have hnext := hstep state (change station) h
    unfold amid
    cases hrun : step state (change station) with
    | mk progress after =>
      rw [hrun] at hnext
      cases progress with
      | moved later => exact ih later after hnext
      | waiting later => exact ih later after hnext
      | finished result => exact hnext

end Course

namespace Dialogue

variable {α β : Type}

/-- As long as the results are as expected, the program makes these calls, one after the other, and
ends with a value as said. -/
def Leads (expected : Call → Exchange.Result → Prop) (post : α → Prop) :
    Dialogue α → List Call → Prop
  | .done value, calls => calls = [] ∧ post value
  | .ask call next, calls =>
    ∃ later, calls = call :: later ∧
      ∀ result, expected call result → (next result).Leads expected post later

variable {expected : Call → Exchange.Result → Prop}

theorem Makes.leads {post : α → Prop} {program : Dialogue α} {calls : List Call}
    (h : program.Makes post calls) : program.Leads expected post calls := by
  induction program generalizing calls with
  | done value => exact h
  | ask call next ih =>
    obtain ⟨later, hcalls, hnext⟩ := h
    exact ⟨later, hcalls, fun result _ => ih result (hnext result)⟩

/-- One program after another makes the calls of both. -/
theorem Leads.bind {mid : α → Prop} {post : β → Prop} {program : Dialogue α}
    {next : α → Dialogue β} {calls later : List Call} (h : program.Leads expected mid calls)
    (hnext : ∀ value, mid value → (next value).Leads expected post later) :
    (program.bind next).Leads expected post (calls ++ later) := by
  induction program generalizing calls with
  | done value =>
    rw [h.1]
    exact hnext value h.2
  | ask call after ih =>
    obtain ⟨others, rfl, hafter⟩ := h
    exact ⟨others ++ later, rfl, fun result hresult => ih result (hafter result hresult)⟩

end Dialogue

namespace Conversation

variable {α τ : Type} [Transport τ]

/-- Every step leaves a program that ends as said, if exchanges end as expected. -/
theorem step_leads {expected : Call → Exchange.Result → Prop} {post : α → Prop}
    (hexpected : ∀ call stage (station : Station τ),
      Course.Meets (fun _ _ => True) (fun result _ => expected call result)
        (Exchange.step call stage station))
    (talk : Conversation α) (station : Station τ)
    (h : ∃ calls, talk.program.Leads expected post calls) :
    Course.Meets (fun talk _ => ∃ calls, talk.program.Leads expected post calls)
      (fun value _ => post value) (talk.step station) := by
  obtain ⟨program, stage⟩ := talk
  obtain ⟨calls, hleads⟩ := h
  cases program with
  | done value => exact hleads.2
  | ask call next =>
    have hend := hexpected call stage station
    simp only [step]
    cases hstep : Exchange.step call stage station with
    | mk progress after =>
      rw [hstep] at hend
      cases progress with
      | moved further => exact ⟨calls, hleads⟩
      | waiting further => exact ⟨calls, hleads⟩
      | finished result =>
        obtain ⟨later, -, hnext⟩ := hleads
        exact ⟨later, hnext result hend⟩

/-- A conversation takes the steps of its present exchange, and goes on with the result of it. -/
theorem pace_ask {call : Call} {next : Exchange.Result → Dialogue α} {clock : Nat → Millis}
    {steps : Nat} {stage : Exchange.Stage} {station final : Station τ} {result : Exchange.Result}
    (h : Course.pace (Exchange.step call) clock steps stage station = (.finished result, final)) :
    ∃ before asked, ∀ more,
      Course.pace step clock (before + more) { program := .ask call next, stage } station =
        Course.pace step (fun n => clock (n + asked)) more { program := next result } final := by
  induction steps generalizing clock stage station with
  | zero => cases h
  | succ steps ih =>
    unfold Course.pace at h
    cases hstep : Exchange.step call stage station with
    | mk progress after =>
      rw [hstep] at h
      cases progress with
      | moved further =>
        have htalk : step { program := .ask call next, stage } station =
            (.moved { program := .ask call next, stage := further }, after) := by
          simp only [step, hstep]
        obtain ⟨before, asked, hmore⟩ := ih h
        refine ⟨before + 1, asked, fun more => ?_⟩
        rw [Nat.add_right_comm, Course.pace, htalk]
        exact hmore more
      | waiting further =>
        have htalk : step { program := .ask call next, stage } station =
            (.waiting { program := .ask call next, stage := further }, after) := by
          simp only [step, hstep]
        obtain ⟨before, asked, hmore⟩ := ih h
        exact ⟨before + 1, asked + 1, Course.pace_of_waiting htalk hmore⟩
      | finished found =>
        cases h
        have htalk : step { program := .ask call next, stage } station =
            (.moved { program := next result }, final) := by
          simp only [step, hstep]
        refine ⟨1, 0, fun more => ?_⟩
        rw [Nat.add_comm, Course.pace, htalk]
        rfl

/-- A conversation gets past an exchange that comes to an end. -/
theorem reaches_of_completes {call : Call} {next : Exchange.Result → Dialogue α}
    {stage : Exchange.Stage} {station : Station τ} {post : Exchange.Result → Station τ → Prop}
    (h : Course.Completes (Exchange.step call) stage station post) :
    Course.Reaches step { program := .ask call next, stage } station fun talk final =>
      ∃ result, talk = { program := next result } ∧ post result final := by
  intro clock hclock
  obtain ⟨steps, result, final, hrun, hpost⟩ := h clock hclock
  obtain ⟨before, asked, hmore⟩ := pace_ask hrun
  exact ⟨before, asked, _, final, ⟨result, rfl, hpost⟩, hmore⟩

/-- If every exchange of a program comes to an end, as expected, and leaves the station as the next
one needs it, the whole program comes to its end. -/
theorem completes_of_calls {expected : Call → Exchange.Result → Prop}
    {ready : List Call → Station τ → Prop} {post : α → Prop}
    (hexchange : ∀ call later station, ready (call :: later) station →
      Course.Completes (Exchange.step call) .queued station fun result final =>
        expected call result ∧ ready later final)
    {program : Dialogue α} {calls : List Call} (h : program.Leads expected post calls)
    {station : Station τ} (hstart : ready calls station) :
    Course.Completes step { program } station fun value final =>
      post value ∧ ready [] final := by
  induction program generalizing calls station with
  | done value =>
    obtain ⟨rfl, hpost⟩ := h
    exact Course.completes_of_finished rfl ⟨hpost, hstart⟩
  | ask call next ih =>
    obtain ⟨later, rfl, hnext⟩ := h
    refine (reaches_of_completes (hexchange call later station hstart)).completes ?_
    rintro talk final ⟨result, rfl, hresult, hready⟩
    exact ih result (hnext result hresult) hready

end Conversation

end CellModem
