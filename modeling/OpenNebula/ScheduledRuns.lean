/-
# `next_action` returns

`DAYS` is checked for the `REPEAT` of the same call only.  An update that makes an action hourly and says
nothing of its days keeps the days of a week or of a year, and these can start with 0: then the loop for
hours does not move (`not_returns`).  Without such updates `next_action` always returns (`returns_of_run`).

Here too is what an accepted `parse` leaves, and the two ways in which `next_action` ends.
-/
import OpenNebula.ScheduledAction

open TextNumber Transition

namespace ScheduledAction

variable {localtime : ℤ → LocalTime} {s s' : ScheduledAction} {va : AttributeMap}

/-! ## What is accepted -/

theorem bind_ok {α β : Type} {x : Except Text α} {f : α → Except Text β} {b : β}
    (h : x.bind f = .ok b) : ∃ a, x = .ok a ∧ f a = .ok b := by
  cases x with
  | error error => exact absurd h (by simp [Except.bind])
  | ok a => exact ⟨a, rfl, h⟩

/-- The fields that say when the action runs. -/
def SameSchedule (s s' : ScheduledAction) : Prop :=
  s'.repeatType = s.repeatType ∧ s'.days = s.days ∧ s'.endType = s.endType ∧
    s'.endValue = s.endValue ∧ s'.done = s.done

theorem parseAction_ok (h : s.parseAction va = .ok s') : SameSchedule s s' := by
  obtain ⟨s₁, h₁, h₂⟩ := bind_ok h
  have hs : s₁ = s' := by
    split_ifs at h₂
    exact Except.ok.inj h₂
  subst hs
  split at h₁
  · rw [← Except.ok.inj h₁]
    exact ⟨rfl, rfl, rfl, rfl, rfl⟩
  · split at h₁
    · rw [← Except.ok.inj h₁]
      exact ⟨rfl, rfl, rfl, rfl, rfl⟩
    · split_ifs at h₁
      · rw [← Except.ok.inj h₁]
        exact ⟨rfl, rfl, rfl, rfl, rfl⟩
      · rw [← Except.ok.inj h₁]
        exact ⟨rfl, rfl, rfl, rfl, rfl⟩
  · exact absurd h₁ (by simp)

theorem parseTimes_ok {origin : ℤ} (h : s.parseTimes va origin = .ok s') : SameSchedule s s' := by
  unfold parseTimes at h
  dsimp only at h
  split_ifs at h
  all_goals
    rw [← Except.ok.inj h]
    exact ⟨rfl, rfl, rfl, rfl, rfl⟩

/-- **An accepted `parse`**: what each attribute says, in the order in which they are read. -/
theorem parse_ok {origin : ℤ} {error : Text} (h : s.parse va origin = .ok (s', error)) :
    s.parseRepeat va = .ok s'.repeatType ∧ parseDays s'.repeatType s.days va = .ok s'.days ∧
      s.parseEndType va = .ok s'.endType ∧
      parseEndValue s'.endType s.endValue va = .ok (s'.endValue, error) ∧ s'.done = s.done := by
  obtain ⟨s₁, h₁, h⟩ := bind_ok h
  obtain ⟨s₂, h₂, h⟩ := bind_ok h
  obtain ⟨repeatType, hrepeat, h⟩ := bind_ok h
  obtain ⟨days, hdays, h⟩ := bind_ok h
  obtain ⟨endType, hend, h⟩ := bind_ok h
  obtain ⟨⟨endValue, error'⟩, hvalue, h⟩ := bind_ok h
  obtain ⟨hr, hd, he, hv, hdone⟩ := parseAction_ok h₁
  obtain ⟨hr', hd', he', hv', hdone'⟩ := parseTimes_ok h₂
  obtain ⟨rfl, rfl⟩ := Prod.mk.inj (Except.ok.inj h)
  refine ⟨?_, ?_, ?_, ?_, hdone'.trans hdone⟩
  · rw [← hrepeat, parseRepeat, parseRepeat, hr', hr]
  · rw [← hd, ← hd']
    exact hdays
  · rw [← hend, parseEndType, parseEndType, he', he]
  · rw [← hv, ← hv']
    exact hvalue

/-! ## The loop for hours -/

/-- The loop ends when it moves. -/
theorem exists_hourLoop {step : ℤ} (hstep : 0 < step) (current time : ℤ) :
    ∃ fuel, (hourLoop step current fuel time).isSome := by
  induction hn : (current - time).toNat using Nat.strong_induction_on generalizing time with
  | _ n ih =>
    by_cases hlt : time + step < current
    · obtain ⟨fuel, hfuel⟩ := ih (current - (time + step)).toNat (by omega) (time + step) rfl
      exact ⟨fuel + 1, by rw [hourLoop, if_pos hlt]; exact hfuel⟩
    · exact ⟨1, by rw [hourLoop, if_neg hlt]; rfl⟩

/-- The loop does not end when it does not move. -/
theorem hourLoop_zero {current time : ℤ} (h : time < current) (fuel : ℕ) :
    hourLoop 0 current fuel time = none := by
  induction fuel with
  | zero => rfl
  | succ fuel ih => rw [hourLoop, add_zero, if_pos h, ih]

/-- What the loop ends with: the first time of its steps that is not before the clock. -/
theorem hourLoop_spec {step current time t : ℤ} {fuel : ℕ} (hlt : time < current)
    (h : hourLoop step current fuel time = some t) :
    current ≤ t ∧ t < current + step ∧ step ∣ t - time := by
  induction fuel generalizing time with
  | zero => exact absurd h (Option.some_ne_none t).symm
  | succ fuel ih =>
    rw [hourLoop] at h
    split_ifs at h with hnext
    · obtain ⟨hle, hbelow, hdvd⟩ := ih hnext h
      refine ⟨hle, hbelow, ?_⟩
      have heq : t - time = t - (time + step) + step := by ring
      rw [heq]
      exact dvd_add hdvd (dvd_refl step)
    · obtain rfl := Option.some.inj h
      refine ⟨by omega, by omega, ?_⟩
      rw [add_sub_cancel_left]

/-- The first hour of the stored days is later than midnight. -/
def Moves (days : Text) : Prop := ∀ first ∈ (splitUnique days).head?, 0 < first

/-- The action does not run again. -/
def Stops (s : ScheduledAction) (current : ℤ) : Prop :=
  s.repeatType = .NONE ∨ splitUnique s.days = [] ∨ (s.endType = .TIMES ∧ s.endValue ≤ 0) ∨
    (s.endType = .DATE ∧ s.endValue < current)

/-- **`next_action`**: the action stops, or it moves to the next `TIME`. -/
theorem nextAction_cases (localtime : ℤ → LocalTime) (fuel : ℕ) (s : ScheduledAction) (current : ℤ) :
    (Stops s current ∧ nextAction localtime fuel s current = some (-1, { s with done := current })) ∨
      (¬ Stops s current ∧ ∃ first rest, splitUnique s.days = first :: rest ∧
        nextAction localtime fuel s current = (nextTime localtime fuel s first rest current).map
          fun time => (time, { s with done := current }.moveTo time)) := by
  unfold Stops nextAction
  by_cases hnone : s.repeatType = .NONE
  · exact Or.inl ⟨Or.inl hnone, if_pos hnone⟩
  cases hdays : splitUnique s.days with
  | nil =>
    refine Or.inl ⟨Or.inr (Or.inl rfl), ?_⟩
    dsimp only
    rw [if_neg hnone, hdays]
  | cons first rest =>
    dsimp only
    rw [if_neg hnone, hdays]
    dsimp only
    by_cases htimes : s.endType = .TIMES ∧ s.endValue ≤ 0
    · exact Or.inl ⟨Or.inr (Or.inr (Or.inl htimes)), if_pos htimes⟩
    rw [if_neg htimes]
    by_cases hdate : s.endType = .DATE ∧ s.endValue < current
    · exact Or.inl ⟨Or.inr (Or.inr (Or.inr hdate)), if_pos hdate⟩
    rw [if_neg hdate]
    refine Or.inr ⟨?_, first, rest, rfl, rfl⟩
    rintro (h | h | h | h)
    · exact hnone h
    · exact List.cons_ne_nil first rest h
    · exact htimes h
    · exact hdate h

/-- **`next_action` returns** for an action that is not hourly, or one whose hours move. -/
theorem returns_of_moves (localtime : ℤ → LocalTime)
    (h : s.repeatType = .HOURLY → Moves s.days) (current : ℤ) : Returns localtime s current := by
  by_cases hhour : s.repeatType = .HOURLY
  · rcases nextAction_cases localtime 0 s current with ⟨-, hstop⟩ | ⟨hgo, first, rest, hdays, -⟩
    · exact ⟨0, by rw [hstop]; rfl⟩
    · have hfirst : 0 < first := h hhour first (by rw [hdays]; rfl)
      have hpos : 0 < first * 3600 := by omega
      obtain ⟨fuel, hfuel⟩ := exists_hourLoop hpos current s.time
      refine ⟨fuel, ?_⟩
      rcases nextAction_cases localtime fuel s current with ⟨hstop, -⟩ | ⟨-, first', rest', hdays', hnext⟩
      · exact absurd hstop hgo
      · rw [hdays] at hdays'
        obtain ⟨rfl, rfl⟩ := List.cons.inj hdays'
        rw [hnext, nextTime, if_pos hhour, Option.isSome_map]
        exact hfuel
  · refine ⟨0, ?_⟩
    rcases nextAction_cases localtime 0 s current with ⟨-, hstop⟩ | ⟨-, first, rest, -, hnext⟩
    · rw [hstop]
      rfl
    · rw [hnext, nextTime, if_neg hhour]
      rfl

theorem moves_of_daysInRange {days : Text} (h : daysInRange .HOURLY days = none) : Moves days := by
  unfold daysInRange at h
  split at h
  · exact absurd h (Option.some_ne_none _)
  · rename_i first rest hdays
    dsimp only [dayRange] at h
    split_ifs at h with hout
    intro first' hfirst'
    rw [hdays] at hfirst'
    obtain rfl := Option.some.inj hfirst'
    rw [not_or, not_lt] at hout
    exact lt_of_lt_of_le one_pos hout.1

/-- The call does not make the action hourly with days that start with 0. -/
def KeepsHours (s : ScheduledAction) : Call → Prop
  | .parse va _ => s.parseRepeat va = .ok .HOURLY → va.lookup "DAYS".toList = none → Moves s.days
  | .next _ _ => True

/-- `next_action` changes neither the `REPEAT` nor the `DAYS`. -/
theorem nextAction_schedule {fuel : ℕ} {current r : ℤ}
    (h : nextAction localtime fuel s current = some (r, s')) :
    s'.repeatType = s.repeatType ∧ s'.days = s.days ∧ s'.endType = s.endType ∧ s'.done = current := by
  rcases nextAction_cases localtime fuel s current with ⟨-, hstop⟩ | ⟨-, first, rest, -, hnext⟩
  · rw [hstop] at h
    rw [← (Prod.mk.inj (Option.some.inj h)).2]
    exact ⟨rfl, rfl, rfl, rfl⟩
  · rw [hnext] at h
    obtain ⟨time, -, heq⟩ := Option.map_eq_some_iff.mp h
    rw [← (Prod.mk.inj heq).2]
    exact ⟨rfl, rfl, rfl, rfl⟩

/-- The days of an accepted `parse`: none, checked now, or as they were. -/
theorem parseDays_ok {repeatType : Repeat} {days days' : Text}
    (h : parseDays repeatType days va = .ok days') :
    (repeatType = .NONE ∧ days' = []) ∨
      (repeatType ≠ .NONE ∧ va.lookup "DAYS".toList = some days' ∧
        daysInRange repeatType days' = none) ∨
      (repeatType ≠ .NONE ∧ va.lookup "DAYS".toList = none ∧ days' = days ∧ days ≠ []) := by
  unfold parseDays at h
  by_cases hnone : repeatType = .NONE
  · rw [if_pos hnone] at h
    exact Or.inl ⟨hnone, (Except.ok.inj h).symm⟩
  · rw [if_neg hnone] at h
    split at h
    · rename_i hlookup
      split at h
      · exact absurd h (by simp)
      · rename_i hrange
        obtain rfl := Except.ok.inj h
        exact Or.inr (Or.inl ⟨hnone, hlookup, hrange⟩)
    · rename_i hlookup
      split_ifs at h with hempty
      obtain rfl := Except.ok.inj h
      refine Or.inr (Or.inr ⟨hnone, hlookup, rfl, ?_⟩)
      rintro rfl
      exact hempty rfl

/-- A call that is made: an accepted `parse` or a `next_action` that returns. -/
theorem step_cases {c : Call} (h : step localtime s c = some s') :
    (∃ va origin error, c = .parse va origin ∧ s.parse va origin = .ok (s', error)) ∨
      ∃ fuel current r, c = .next fuel current ∧ nextAction localtime fuel s current = some (r, s') := by
  cases c with
  | parse va origin =>
    obtain ⟨⟨s₁, error⟩, hs₁, rfl⟩ := Option.map_eq_some_iff.mp h
    refine Or.inl ⟨va, origin, error, rfl, ?_⟩
    cases hparse : s.parse va origin with
    | error e =>
      rw [hparse] at hs₁
      exact absurd hs₁ (by simp [Except.toOption])
    | ok x =>
      rw [hparse] at hs₁
      rw [Option.some.inj hs₁]
  | next fuel current =>
    obtain ⟨⟨r, s₁⟩, hs₁, rfl⟩ := Option.map_eq_some_iff.mp h
    exact Or.inr ⟨fuel, current, r, rfl, hs₁⟩

/-- **Every reached action** that is hourly has hours that move. -/
theorem moves_of_run {type : SchedType} (hrun : Reach (step localtime) KeepsHours (new type) s)
    (hhour : s.repeatType = .HOURLY) : Moves s.days := by
  refine hrun.inv (P := fun s => s.repeatType = .HOURLY → Moves s.days) ?_ ?_ hhour
  · intro h
    exact Repeat.noConfusion h
  · intro s c s' ih hkeeps hstep hhour
    rcases step_cases hstep with ⟨va, origin, error, rfl, hparse⟩ | ⟨fuel, current, r, rfl, hnext⟩
    · obtain ⟨hrepeat, hdays, -⟩ := parse_ok hparse
      rw [hhour] at hrepeat hdays
      rcases parseDays_ok hdays with ⟨hnone, -⟩ | ⟨-, -, hrange⟩ | ⟨-, hlookup, heq, -⟩
      · exact absurd hnone (by decide)
      · exact moves_of_daysInRange hrange
      · rw [heq]
        exact hkeeps hrepeat hlookup
    · obtain ⟨hrepeat, hdays, -⟩ := nextAction_schedule hnext
      rw [hdays]
      exact ih (hrepeat.symm.trans hhour)

/-- **The days of a reached action**: a text of days has some, and an action that repeats has a text. -/
theorem days_of_run {type : SchedType} (hrun : Run (step localtime) (new type) s) :
    (s.days ≠ [] → splitUnique s.days ≠ []) ∧ (s.repeatType ≠ .NONE → s.days ≠ []) := by
  refine hrun.inv (P := fun s => (s.days ≠ [] → splitUnique s.days ≠ []) ∧
    (s.repeatType ≠ .NONE → s.days ≠ [])) ?_ ?_
  · exact ⟨fun h => absurd rfl h, fun h => absurd rfl h⟩
  · rintro s c s' ⟨ihdays, ihrepeat⟩ - hstep
    rcases step_cases hstep with ⟨va, origin, error, rfl, hparse⟩ | ⟨fuel, current, r, rfl, hnext⟩
    · obtain ⟨-, hdays, -⟩ := parse_ok hparse
      rcases parseDays_ok hdays with ⟨hnone, hnil⟩ | ⟨-, -, hrange⟩ | ⟨-, -, heq, hne⟩
      · exact ⟨fun h => absurd hnil h, fun h => absurd hnone h⟩
      · have hsplit : splitUnique s'.days ≠ [] := by
          intro hnil
          rw [daysInRange, hnil] at hrange
          exact absurd hrange (Option.some_ne_none _)
        refine ⟨fun _ => hsplit, fun _ hnil => ?_⟩
        rw [hnil, TextList.splitUnique_nil] at hsplit
        exact hsplit rfl
      · rw [heq]
        exact ⟨ihdays, fun _ => hne⟩
    · obtain ⟨hrepeat, hdays, -⟩ := nextAction_schedule hnext
      rw [hrepeat, hdays]
      exact ⟨ihdays, ihrepeat⟩

/-- **`next_action` always returns** when no call makes an action hourly with the days of a week or a year
that start with 0. -/
theorem returns_of_run (localtime : ℤ → LocalTime) (type : SchedType)
    (hrun : Reach (step localtime) KeepsHours (new type) s) (current : ℤ) :
    Returns localtime s current :=
  returns_of_moves localtime (moves_of_run hrun) current

/-- A new action for every Sunday. -/
def sunday : AttributeMap :=
  AList.insert "ACTION".toList "terminate".toList (AList.insert "TIME".toList "1000".toList
    (AList.insert "REPEAT".toList "0".toList (AList.insert "DAYS".toList "0".toList ∅)))

/-- An update that makes it hourly. -/
def hourly : AttributeMap := AList.insert "REPEAT".toList "3".toList ∅

/-- The action for every Sunday. -/
def onSunday : ScheduledAction :=
  { new .VM with
    action := "terminate".toList
    time := 1000
    repeatType := .WEEKLY
    days := "0".toList }

theorem parse_sunday :
    ((new .VM).parse sunday 0).toOption.map Prod.fst = some onSunday := by
  decide

theorem parse_hourly :
    (onSunday.parse hourly 0).toOption.map Prod.fst =
      some { onSunday with repeatType := .HOURLY } := by
  decide

/-- An update that makes it run every two hours, and one that says only when it starts. -/
def everyTwoHours : AttributeMap := AList.insert "DAYS".toList "2".toList hourly

def later : AttributeMap := AList.insert "TIME".toList "5000".toList ∅

/-- The action was for Sundays, it has become hourly, and its hours stay when the start is moved. -/
theorem returns_of_run_updated :
    Returns (fun _ => ⟨0, 0, 0, 0, 0⟩)
      { onSunday with repeatType := .HOURLY, days := "2".toList, time := 5000 } 50000 := by
  have hsunday : Reach (step fun _ => ⟨0, 0, 0, 0, 0⟩) KeepsHours (new .VM) onSunday :=
    Reach.refl.tail (e := .parse sunday 0) (fun _ hnone => absurd hnone (by decide)) parse_sunday
  have hhours : Reach (step fun _ => ⟨0, 0, 0, 0, 0⟩) KeepsHours (new .VM)
      { onSunday with repeatType := .HOURLY, days := "2".toList } :=
    hsunday.tail (e := .parse everyTwoHours 0) (fun _ hnone => absurd hnone (by decide))
      (by decide)
  refine returns_of_run _ .VM (hhours.tail (e := .parse later 0) (fun _ _ => ?_) (by decide)) 50000
  unfold Moves
  decide

/-- The action that was for Sundays is made hourly, and keeps its day 0. -/
theorem not_returns :
    ¬ ∀ (localtime : ℤ → LocalTime) (type : SchedType) (s : ScheduledAction),
      Run (step localtime) (new type) s → ∀ current, Returns localtime s current := by
  intro h
  let localtime : ℤ → LocalTime := fun _ => ⟨0, 0, 0, 0, 0⟩
  have hrun : Run (step localtime) (new .VM) { onSunday with repeatType := .HOURLY } :=
    Reach.tail (e := .parse hourly 0) (Reach.tail (e := .parse sunday 0) Reach.refl trivial parse_sunday)
      trivial parse_hourly
  obtain ⟨fuel, hfuel⟩ := h localtime .VM _ hrun 2000
  have hdays : splitUnique onSunday.days = [0] := by decide
  rcases nextAction_cases localtime fuel { onSunday with repeatType := .HOURLY } 2000 with
    ⟨hstop, -⟩ | ⟨-, first, rest, hsplit, hnext⟩
  · rcases hstop with h | h | h | h
    · exact Repeat.noConfusion h
    · exact absurd (hdays.symm.trans h) (by decide)
    · exact EndOn.noConfusion h.1
    · exact EndOn.noConfusion h.1
  · obtain ⟨rfl, rfl⟩ := List.cons.inj (hdays.symm.trans hsplit)
    rw [hnext, nextTime, if_pos rfl, zero_mul, hourLoop_zero (by decide)] at hfuel
    exact absurd hfuel (by decide)

end ScheduledAction
