import CellModem.Station

/-!
What becomes of something that goes on step by step on a station. `follow` takes a step at each of
a list of moments, whoever chose them; `pace` lets time pass only while there is something to wait
for, and asks again at the moments of a clock. A step lemma about either gives a lemma about the
whole run, and a wait that ends by a certain moment ends under every clock that gets there.
-/

namespace CellModem

variable {τ σ α : Type}

/-- One step of something that has come to a state, on a station. -/
abbrev Course (τ σ α : Type) := σ → Station τ → Progress σ α × Station τ

namespace Course

/-- Take a step at each of the given moments, up to the end. -/
def follow (step : Course τ σ α) :
    List Millis → σ → Station τ → Progress σ α × Station τ
  | [], state, station => (.moved state, station)
  | moment :: moments, state, station =>
    match step state (station.passTo moment) with
    | (.finished result, station) => (.finished result, station)
    | (.moved state, station) => follow step moments state station
    | (.waiting state, station) => follow step moments state station

/-- Take so many steps. Only waiting takes time: the clock gives the moments at which the step that
has to wait is tried again. -/
def pace (step : Course τ σ α) :
    (clock : Nat → Millis) → (steps : Nat) → σ → Station τ → Progress σ α × Station τ
  | _, 0, state, station => (.moved state, station)
  | clock, steps + 1, state, station =>
    match step state station with
    | (.finished result, station) => (.finished result, station)
    | (.moved state, station) => pace step clock steps state station
    | (.waiting state, station) =>
      pace step (fun n => clock (n + 1)) steps state (station.passTo (clock 0))

/-- What is said of a state that is gone on from, and of a result. -/
def Meets (invariant : σ → Station τ → Prop) (post : α → Station τ → Prop) :
    Progress σ α × Station τ → Prop
  | (.moved state, station) => invariant state station
  | (.waiting state, station) => invariant state station
  | (.finished result, station) => post result station

theorem Meets.imp {invariant invariant' : σ → Station τ → Prop}
    {post post' : α → Station τ → Prop} {outcome : Progress σ α × Station τ}
    (h : Meets invariant post outcome)
    (hinvariant : ∀ state station, invariant state station → invariant' state station)
    (hpost : ∀ result station, post result station → post' result station) :
    Meets invariant' post' outcome := by
  obtain ⟨progress, station⟩ := outcome
  cases progress with
  | moved state => exact hinvariant state station h
  | waiting state => exact hinvariant state station h
  | finished result => exact hpost result station h

theorem meets_of_station (claim : Station τ → Prop) {outcome : Progress σ α × Station τ}
    (h : claim outcome.2) : Meets (fun _ => claim) (fun _ => claim) outcome := by
  obtain ⟨progress, station⟩ := outcome
  cases progress <;> exact h

/-- What is said of every state and of every result is said of the station anyway. -/
theorem Meets.station {invariant : σ → Station τ → Prop} {post : α → Station τ → Prop}
    {claim : Station τ → Prop} {outcome : Progress σ α × Station τ}
    (h : Meets invariant post outcome)
    (hinvariant : ∀ state station, invariant state station → claim station)
    (hpost : ∀ result station, post result station → claim station) : claim outcome.2 := by
  obtain ⟨progress, station⟩ := outcome
  cases progress with
  | moved state => exact hinvariant state station h
  | waiting state => exact hinvariant state station h
  | finished result => exact hpost result station h

/-- What every step preserves, and the passing of time, holds along the whole run; what the last
step ends with holds of its result. -/
theorem follow_meets {step : Course τ σ α} {invariant : σ → Station τ → Prop}
    {post : α → Station τ → Prop}
    (hstep : ∀ state station, invariant state station →
      Meets invariant post (step state station))
    (htime : ∀ state station moment, invariant state station →
      invariant state (station.passTo moment))
    (moments : List Millis) (state : σ) (station : Station τ)
    (hstart : invariant state station) :
    Meets invariant post (follow step moments state station) := by
  induction moments generalizing state station with
  | nil => exact hstart
  | cons moment moments ih =>
    have hnext := hstep state (station.passTo moment) (htime state station moment hstart)
    unfold follow
    split
    case h_1 result next hrun =>
      rw [hrun] at hnext
      exact hnext
    case h_2 state' next hrun =>
      rw [hrun] at hnext
      exact ih state' next hnext
    case h_3 state' next hrun =>
      rw [hrun] at hnext
      exact ih state' next hnext

/-- It is enough that the first step sets out right, from wherever it is taken. -/
theorem follow_meets_of_first {step : Course τ σ α} {invariant : σ → Station τ → Prop}
    {post : α → Station τ → Prop} {moment : Millis} {state : σ} {station : Station τ}
    (hfirst : Meets invariant post (step state (station.passTo moment)))
    (hstep : ∀ state station, invariant state station →
      Meets invariant post (step state station))
    (htime : ∀ state station moment, invariant state station →
      invariant state (station.passTo moment))
    (moments : List Millis) :
    Meets invariant post (follow step (moment :: moments) state station) := by
  unfold follow
  split
  case h_1 result next hrun =>
    rw [hrun] at hfirst
    exact hfirst
  case h_2 state' next hrun =>
    rw [hrun] at hfirst
    exact follow_meets hstep htime moments state' next hfirst
  case h_3 state' next hrun =>
    rw [hrun] at hfirst
    exact follow_meets hstep htime moments state' next hfirst

/-- One more step, after steps that have not come to the end. -/
theorem follow_concat {step : Course τ σ α} {moments : List Millis} {state later : σ}
    {station next : Station τ} (h : follow step moments state station = (.moved later, next))
    (moment : Millis) :
    follow step (moments ++ [moment]) state station = follow step [moment] later next := by
  induction moments generalizing state station with
  | nil =>
    cases h
    rfl
  | cons earlier moments ih =>
    unfold follow at h
    rw [List.cons_append, follow]
    cases hrun : step state (station.passTo earlier) with
    | mk progress after =>
      rw [hrun] at h
      cases progress with
      | moved between => exact ih h
      | waiting between => exact ih h
      | finished result => cases h

/-- A relation between earlier and later stations that goes along with every step, and with time,
goes along with the whole run. -/
theorem follow_relates {step : Course τ σ α} {relation : Station τ → Station τ → Prop}
    (hrefl : ∀ station, relation station station)
    (htrans : ∀ {first middle last}, relation first middle → relation middle last →
      relation first last)
    (htime : ∀ station moment, relation station (station.passTo moment))
    (hstep : ∀ state station, relation station (step state station).2)
    (moments : List Millis) (state : σ) (station : Station τ) :
    relation station (follow step moments state station).2 := by
  induction moments generalizing state station with
  | nil => exact hrefl station
  | cons moment moments ih =>
    have hnext := htrans (htime station moment) (hstep state (station.passTo moment))
    unfold follow
    cases hrun : step state (station.passTo moment) with
    | mk progress next =>
      rw [hrun] at hnext
      cases progress with
      | moved later => exact htrans hnext (ih later next)
      | waiting later => exact htrans hnext (ih later next)
      | finished result => exact hnext

/-- The clock gets past every moment. -/
def Unbounded (clock : Nat → Millis) : Prop :=
  ∀ moment, ∃ n, moment ≤ clock n

theorem Unbounded.later {clock : Nat → Millis} (h : Unbounded clock) :
    Unbounded (fun n => clock (n + 1)) := by
  intro moment
  obtain ⟨n, hn⟩ := h (max moment (clock 0 + 1))
  cases n with
  | zero =>
    have hfirst := Nat.le_trans (Nat.le_max_right _ _) hn
    omega
  | succ n => exact ⟨n, Nat.le_trans (Nat.le_max_left _ _) hn⟩

/-- Under every clock that goes on, this is come to sooner or later; from there the run goes on with
what is left of the clock. -/
def Reaches (step : Course τ σ α) (state : σ) (station : Station τ)
    (goal : σ → Station τ → Prop) : Prop :=
  ∀ clock, Unbounded clock → ∃ before asked state' station', goal state' station' ∧
    ∀ steps, pace step clock (before + steps) state station =
      pace step (fun n => clock (n + asked)) steps state' station'

/-- Under every clock that goes on there is an end, and it is as said. -/
def Completes (step : Course τ σ α) (state : σ) (station : Station τ)
    (post : α → Station τ → Prop) : Prop :=
  ∀ clock, Unbounded clock → ∃ steps result final,
    pace step clock steps state station = (.finished result, final) ∧ post result final

variable {step : Course τ σ α} {state state' : σ} {station next : Station τ}
  {goal : σ → Station τ → Prop} {post : α → Station τ → Prop}

theorem reaches_of_goal (h : goal state station) : Reaches step state station goal := by
  intro clock hclock
  exact ⟨0, 0, state, station, h, fun steps => by rw [Nat.zero_add]; rfl⟩

theorem reaches_of_moved (hrun : step state station = (.moved state', next))
    (hnext : Reaches step state' next goal) : Reaches step state station goal := by
  intro clock hclock
  obtain ⟨before, asked, later, after, hgoal, hsteps⟩ := hnext clock hclock
  refine ⟨before + 1, asked, later, after, hgoal, ?_⟩
  intro steps
  rw [Nat.add_right_comm, pace, hrun]
  exact hsteps steps

/-- A wait uses up a moment of the clock. -/
theorem pace_of_waiting {clock : Nat → Millis} {before asked : Nat} {later : σ}
    {after : Station τ} (hrun : step state station = (.waiting state', next))
    (hsteps : ∀ steps,
      pace step (fun n => clock (n + 1)) (before + steps) state' (next.passTo (clock 0)) =
        pace step (fun n => clock (n + asked + 1)) steps later after) (steps : Nat) :
    pace step clock (before + 1 + steps) state station =
      pace step (fun n => clock (n + (asked + 1))) steps later after := by
  rw [Nat.add_right_comm, pace, hrun]
  exact hsteps steps

/-- Whoever waits goes on at whatever moment comes next. -/
theorem reaches_of_waiting (hrun : step state station = (.waiting state', next))
    (hnext : ∀ moment, Reaches step state' (next.passTo moment) goal) :
    Reaches step state station goal := by
  intro clock hclock
  obtain ⟨before, asked, later, after, hgoal, hsteps⟩ := hnext (clock 0) _ hclock.later
  exact ⟨before + 1, asked + 1, later, after, hgoal, pace_of_waiting hrun hsteps⟩

/-- A wait that is over by a certain moment at the latest. -/
theorem reaches_of_wait {invariant : σ → Station τ → Prop} (target : Millis)
    (htime : ∀ state station moment, invariant state station →
      invariant state (station.passTo moment))
    (hstep : ∀ state station, invariant state station →
      (station.now < target ∧
        ∃ state' next, step state station = (.waiting state', next) ∧ invariant state' next) ∨
      Reaches step state station goal)
    (hstart : invariant state station) : Reaches step state station goal := by
  intro clock hclock
  obtain ⟨n, hn⟩ := hclock target
  induction n generalizing clock state station with
  | zero =>
    rcases hstep state station hstart with ⟨-, state', next, hrun, hnext⟩ | hdone
    · have hlate : target ≤ (next.passTo (clock 0)).now :=
        Nat.le_trans hn (Nat.le_max_right _ _)
      rcases hstep state' _ (htime _ _ (clock 0) hnext) with ⟨hearly, -⟩ | hdone
      · exact absurd hlate (Nat.not_le_of_lt hearly)
      · obtain ⟨before, asked, later, after, hgoal, hsteps⟩ := hdone _ hclock.later
        exact ⟨before + 1, asked + 1, later, after, hgoal, pace_of_waiting hrun hsteps⟩
    · exact hdone clock hclock
  | succ n ih =>
    rcases hstep state station hstart with ⟨-, state', next, hrun, hnext⟩ | hdone
    · obtain ⟨before, asked, later, after, hgoal, hsteps⟩ :=
        ih (htime _ _ (clock 0) hnext) _ hclock.later hn
      exact ⟨before + 1, asked + 1, later, after, hgoal, pace_of_waiting hrun hsteps⟩
    · exact hdone clock hclock

theorem Unbounded.drop {clock : Nat → Millis} (h : Unbounded clock) (count : Nat) :
    Unbounded (fun n => clock (n + count)) := by
  induction count generalizing clock with
  | zero => exact h
  | succ count ih => exact ih h.later

theorem Reaches.completes (h : Reaches step state station goal)
    (hgoal : ∀ state station, goal state station → Completes step state station post) :
    Completes step state station post := by
  intro clock hclock
  obtain ⟨before, asked, later, after, hreached, hsteps⟩ := h clock hclock
  obtain ⟨steps, result, final, hrun, hresult⟩ := hgoal later after hreached _ (hclock.drop asked)
  exact ⟨before + steps, result, final, (hsteps steps).trans hrun, hresult⟩

theorem Completes.imp {post' : α → Station τ → Prop} (h : Completes step state station post)
    (hpost : ∀ result final, post result final → post' result final) :
    Completes step state station post' := by
  intro clock hclock
  obtain ⟨steps, result, final, hrun, hresult⟩ := h clock hclock
  exact ⟨steps, result, final, hrun, hpost result final hresult⟩

/-- What every step preserves, and the passing of time, holds however long the run. -/
theorem pace_meets {invariant : σ → Station τ → Prop}
    (hstep : ∀ state station, invariant state station →
      Meets invariant post (step state station))
    (htime : ∀ state station moment, invariant state station →
      invariant state (station.passTo moment))
    (clock : Nat → Millis) (steps : Nat) (state : σ) (station : Station τ)
    (hstart : invariant state station) :
    Meets invariant post (pace step clock steps state station) := by
  induction steps generalizing clock state station with
  | zero => exact hstart
  | succ steps ih =>
    have hnext := hstep state station hstart
    unfold pace
    split
    case h_1 result next hrun =>
      rw [hrun] at hnext
      exact hnext
    case h_2 state' next hrun =>
      rw [hrun] at hnext
      exact ih _ state' next hnext
    case h_3 state' next hrun =>
      rw [hrun] at hnext
      exact ih _ state' _ (htime state' next (clock 0) hnext)

/-- So whatever the last step ends with holds of the result as well. -/
theorem Completes.upholds {invariant : σ → Station τ → Prop} {post' : α → Station τ → Prop}
    (h : Completes step state station post)
    (hstep : ∀ state station, invariant state station →
      Meets invariant post' (step state station))
    (htime : ∀ state station moment, invariant state station →
      invariant state (station.passTo moment))
    (hstart : invariant state station) :
    Completes step state station fun result final => post result final ∧ post' result final := by
  intro clock hclock
  obtain ⟨steps, result, final, hrun, hpost⟩ := h clock hclock
  have hmeets := pace_meets hstep htime clock steps state station hstart
  rw [hrun] at hmeets
  exact ⟨steps, result, final, hrun, hpost, hmeets⟩

theorem completes_of_finished {result : α} {final : Station τ}
    (hrun : step state station = (.finished result, final)) (hpost : post result final) :
    Completes step state station post := by
  intro clock hclock
  exact ⟨1, result, final, by simp only [pace, hrun], hpost⟩

theorem completes_of_moved (hrun : step state station = (.moved state', next))
    (hnext : Completes step state' next post) : Completes step state station post := by
  let goal : σ → Station τ → Prop := fun state station => Completes step state station post
  have hreaches : Reaches step state station goal := reaches_of_moved hrun (reaches_of_goal hnext)
  exact hreaches.completes fun _ _ h => h

theorem completes_of_waiting (hrun : step state station = (.waiting state', next))
    (hnext : ∀ moment, Completes step state' (next.passTo moment) post) :
    Completes step state station post := by
  let goal : σ → Station τ → Prop := fun state station => Completes step state station post
  have hreaches : Reaches step state station goal :=
    reaches_of_waiting hrun fun moment => reaches_of_goal (hnext moment)
  exact hreaches.completes fun _ _ h => h

theorem completes_of_wait {invariant : σ → Station τ → Prop} (target : Millis)
    (htime : ∀ state station moment, invariant state station →
      invariant state (station.passTo moment))
    (hstep : ∀ state station, invariant state station →
      (station.now < target ∧
        ∃ state' next, step state station = (.waiting state', next) ∧ invariant state' next) ∨
      Completes step state station post)
    (hstart : invariant state station) : Completes step state station post := by
  let goal : σ → Station τ → Prop := fun state station => Completes step state station post
  have hreaches : Reaches step state station goal := by
    refine reaches_of_wait target htime ?_ hstart
    intro state station hinvariant
    rcases hstep state station hinvariant with hwait | hdone
    · exact Or.inl hwait
    · exact Or.inr (reaches_of_goal hdone)
  exact hreaches.completes fun _ _ h => h

end Course

end CellModem
