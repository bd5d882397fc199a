import CellModem.Dialogue
import CellModem.Proofs.Course

/-!
What can be said of a program by the calls it makes. `Makes` gives the calls of a program, which are
the same whatever comes of them, and what it ends with. `Alike` compares two programs that make the
same calls as long as these have the same results. On a station such programs go on in step, and
what others do to the station in between makes no difference to that.
-/

namespace CellModem

theorem Progress.eq_finished_of_result? {σ α : Type} {progress : Progress σ α} {result : α}
    (h : progress.result? = some result) : progress = .finished result := by
  cases progress with
  | finished other =>
    cases h
    rfl
  | moved state | waiting state => cases h

namespace Course

variable {τ σ α : Type}

/-- Take a step after each of the given changes of the station, that time or others have made. -/
def amid (step : Course τ σ α) :
    List (Station τ → Station τ) → σ → Station τ → Progress σ α × Station τ
  | [], state, station => (.moved state, station)
  | change :: changes, state, station =>
    match step state (change station) with
    | (.finished result, station) => (.finished result, station)
    | (.moved state, station) => amid step changes state station
    | (.waiting state, station) => amid step changes state station

end Course

namespace Dialogue

variable {α β : Type}

/-- Whatever the results, the program makes these calls, one after the other, and ends with a value
as said. -/
def Makes (post : α → Prop) : Dialogue α → List Call → Prop
  | .done value, calls => calls = [] ∧ post value
  | .ask call next, calls =>
    ∃ later, calls = call :: later ∧ ∀ result, (next result).Makes post later

theorem Makes.imp {post post' : α → Prop} (hpost : ∀ value, post value → post' value)
    {program : Dialogue α} {calls : List Call} (h : program.Makes post calls) :
    program.Makes post' calls := by
  induction program generalizing calls with
  | done value => exact ⟨h.1, hpost value h.2⟩
  | ask call next ih =>
    obtain ⟨later, hcalls, hnext⟩ := h
    exact ⟨later, hcalls, fun result => ih result (hnext result)⟩

/-- One program after another makes the calls of both. -/
theorem Makes.bind {mid : α → Prop} {post : β → Prop} {program : Dialogue α}
    {next : α → Dialogue β} {calls later : List Call} (h : program.Makes mid calls)
    (hnext : ∀ value, mid value → (next value).Makes post later) :
    (program.bind next).Makes post (calls ++ later) := by
  induction program generalizing calls with
  | done value =>
    rw [h.1]
    exact hnext value h.2
  | ask call after ih =>
    obtain ⟨others, rfl, hafter⟩ := h
    exact ⟨others ++ later, rfl, fun result => ih result (hafter result)⟩

/-- With a modem that is given by its answers the program comes to an end, as said. -/
theorem Makes.run {post : α → Prop} {program : Dialogue α} {calls : List Call}
    (h : program.Makes post calls) {σ : Type} (answer : Call → σ → Exchange.Result × σ)
    (modem : σ) : post (program.run answer modem).1 := by
  induction program generalizing calls modem with
  | done value => exact h.2
  | ask call next ih =>
    obtain ⟨later, -, hnext⟩ := h
    exact ih _ (hnext _) _

/-- The two programs make the same calls, as long as these have the same results, and end with
values that are so related. -/
def Alike (related : α → β → Prop) : Dialogue α → Dialogue β → Prop
  | .done first, .done second => related first second
  | .ask call next, .ask other later =>
    call = other ∧ ∀ result, (next result).Alike related (later result)
  | .done _, .ask _ _ | .ask _ _, .done _ => False

end Dialogue

namespace Conversation

variable {α β τ : Type}

/-- Two conversations have come equally far with programs that are alike. -/
def Corresponds (related : α → β → Prop) :
    Progress (Conversation α) α → Progress (Conversation β) β → Prop
  | .moved first, .moved second | .waiting first, .waiting second =>
    first.stage = second.stage ∧ first.program.Alike related second.program
  | .finished first, .finished second => related first second
  | _, _ => False

theorem Corresponds.finished {related : α → β → Prop}
    {first : Progress (Conversation α) α} {second : Progress (Conversation β) β} {value : α}
    (h : Corresponds related first second) (hfirst : first = .finished value) :
    ∃ other, second = .finished other ∧ related value other := by
  subst hfirst
  cases second with
  | moved later => exact h.elim
  | waiting later => exact h.elim
  | finished other => exact ⟨other, rfl, h⟩

theorem Corresponds.isSome_result? {related : α → β → Prop}
    {first : Progress (Conversation α) α} {second : Progress (Conversation β) β}
    (h : Corresponds related first second) :
    first.result?.isSome = second.result?.isSome := by
  cases first <;> cases second <;> first | rfl | exact h.elim

variable [Transport τ]

/-- A step of either does the same to the station. -/
theorem step_alike {related : α → β → Prop} {first : Dialogue α} {second : Dialogue β}
    (h : first.Alike related second) (stage : Exchange.Stage) (station : Station τ) :
    (step { program := first, stage } station).2 = (step { program := second, stage } station).2 ∧
      Corresponds related (step { program := first, stage } station).1
        (step { program := second, stage } station).1 := by
  match first, second, h with
  | .done value, .done other, h => exact ⟨rfl, h⟩
  | .ask call next, .ask _ later, ⟨rfl, hnext⟩ =>
    simp only [step]
    cases hstep : Exchange.step call stage station with
    | mk progress after =>
      cases progress with
      | moved further => exact ⟨rfl, rfl, rfl, hnext⟩
      | waiting further => exact ⟨rfl, rfl, rfl, hnext⟩
      | finished result => exact ⟨rfl, rfl, hnext result⟩

/-- Programs that are alike do the same to a station, step by step, and come to their ends at the
same time, if others do the same in between. -/
theorem amid_alike {related : α → β → Prop} {first : Dialogue α} {second : Dialogue β}
    (h : first.Alike related second) (changes : List (Station τ → Station τ))
    (stage : Exchange.Stage) (station : Station τ) :
    (Course.amid step changes { program := first, stage } station).2 =
        (Course.amid step changes { program := second, stage } station).2 ∧
      Corresponds related (Course.amid step changes { program := first, stage } station).1
        (Course.amid step changes { program := second, stage } station).1 := by
  induction changes generalizing first second stage station with
  | nil => exact ⟨rfl, rfl, h⟩
  | cons change changes ih =>
    obtain ⟨hstation, hprogress⟩ := step_alike h stage (change station)
    unfold Course.amid
    cases hfirst : step { program := first, stage } (change station) with
    | mk one after =>
      cases hsecond : step { program := second, stage } (change station) with
      | mk other after' =>
        rw [hfirst, hsecond] at hstation hprogress
        obtain rfl : after = after' := hstation
        match one, other, hprogress with
        | .moved ⟨first, stage⟩, .moved ⟨second, _⟩, ⟨rfl, halike⟩ =>
          exact ih halike stage after
        | .waiting ⟨first, stage⟩, .waiting ⟨second, _⟩, ⟨rfl, halike⟩ =>
          exact ih halike stage after
        | .finished value, .finished other, hrelated => exact ⟨rfl, hrelated⟩

/-- Every step leaves a program that ends as said. -/
theorem step_makes {post : α → Prop} {talk : Conversation α} {calls : List Call}
    (h : talk.program.Makes post calls) (station : Station τ) :
    Course.Meets (fun talk _ => ∃ calls, talk.program.Makes post calls) (fun value _ => post value)
      (talk.step station) := by
  obtain ⟨program, stage⟩ := talk
  cases program with
  | done value => exact h.2
  | ask call next =>
    simp only [step]
    cases hstep : Exchange.step call stage station with
    | mk progress after =>
      cases progress with
      | moved further => exact ⟨calls, h⟩
      | waiting further => exact ⟨calls, h⟩
      | finished result =>
        obtain ⟨later, -, hnext⟩ := h
        exact ⟨later, hnext result⟩

/-- Whatever comes of its calls, on whatever station, a program ends as said, if it ends. -/
theorem amid_makes {post : α → Prop} {talk : Conversation α} {calls : List Call}
    (h : talk.program.Makes post calls) (changes : List (Station τ → Station τ))
    (station : Station τ) :
    Course.Meets (fun talk _ => ∃ calls, talk.program.Makes post calls) (fun value _ => post value)
      (Course.amid step changes talk station) := by
  induction changes generalizing talk calls station with
  | nil => exact ⟨calls, h⟩
  | cons change changes ih =>
    have hnext := step_makes h (change station)
    unfold Course.amid
    cases hstep : step talk (change station) with
    | mk progress after =>
      rw [hstep] at hnext
      cases progress with
      | moved later =>
        obtain ⟨calls, hlater⟩ := hnext
        exact ih hlater after
      | waiting later =>
        obtain ⟨calls, hlater⟩ := hnext
        exact ih hlater after
      | finished value => exact hnext

theorem post_of_finished {post : α → Prop} {program : Dialogue α} {calls : List Call}
    (h : program.Makes post calls) {changes : List (Station τ → Station τ)} {station : Station τ}
    {value : α} (hfinished : (Course.amid step changes { program } station).1 = .finished value) :
    post value := by
  have hmeets : Course.Meets _ _ (Course.amid step changes { program } station) :=
    amid_makes h changes station
  cases hcourse : Course.amid step changes { program } station with
  | mk progress final =>
    rw [hcourse] at hmeets hfinished
    cases hfinished
    exact hmeets

end Conversation

end CellModem
