/-
# The days of a scheduled action

`next_action` counts the days from the clock's own date to the next one of `DAYS`, and adds them to the old
`TIME`.  That the count is right is `delta_eq`: it leads to the day `Periods.aim`, the next number of `DAYS`
in the clock's week, month or year, or the first one in the next.

So the new `TIME` is on that day when the action runs on the day of its `TIME`.  A run that is delayed past
midnight, on the other hand, is moved to an earlier day, and so is one that aims at a day which its month or
its year does not have.  `falls_on_day_iff` says exactly when the new `TIME` is right (`not_falls_on_day`
for a run after midnight).
-/
import OpenNebula.Calendar
import OpenNebula.ScheduledCount

open TextNumber Transition Calendar

namespace ScheduledAction

variable {s s' : ScheduledAction} {off c : ℤ}

/-! ## Local time -/

/-- The local day at an offset from UTC. -/
def localDay (off t : ℤ) : ℤ := (t + off) / 86400

/-- The seconds since the local midnight. -/
def timeOfDay (off t : ℤ) : ℤ := (t + off) % 86400

/-- `localtime` at an offset from UTC. -/
def localtimeAt (off t : ℤ) : LocalTime where
  wday := weekday (localDay off t)
  mday := dayOfMonth (localDay off t)
  yday := dayOfYear (localDay off t)
  mon := monthOf (localDay off t)
  year := yearOf (localDay off t) - 1900

/-- An action for days. -/
def OnDays (r : Repeat) : Prop := r = .WEEKLY ∨ r = .MONTHLY ∨ r = .YEARLY

instance (r : Repeat) : Decidable (OnDays r) := inferInstanceAs (Decidable (_ ∨ _))

/-- The periods of an action for days. -/
def periods : Repeat → Periods
  | .MONTHLY => months
  | .YEARLY => years
  | _ => weeks

theorem currentDay_eq {r : Repeat} (hr : OnDays r) (t : ℤ) :
    currentDay r (localtimeAt off t) = (periods r).number (localDay off t) := by
  unfold Periods.number
  rcases hr with rfl | rfl | rfl
  · show weekday _ = localDay off t - (localDay off t - weekday _) + 0
    ring
  · show dayOfMonth _ = localDay off t - monthStart _ _ + 1
    exact dayOfMonth_eq _
  · show localDay off t - yearStart _ = localDay off t - yearStart _ + 0
    ring

/-- The table of the months. -/
theorem monthDays_eq (y : ℤ) {m : ℕ} (hm : m < 12) :
    ([31, 28, 31, 30, 31, 30, 31, 31, 30, 31, 30, 31] : List ℤ).getD (m : ℤ).toNat 0 +
      (if (y % 4 = 0 ∧ (y % 100 ≠ 0 ∨ y % 400 = 0)) ∧ (m : ℤ) = 1 then 1 else 0) =
    (monthLengths y).getD m 0 := by
  rw [Int.toNat_natCast]
  by_cases hfeb : m = 1
  · subst hfeb
    show 28 + (if (y % 4 = 0 ∧ (y % 100 ≠ 0 ∨ y % 400 = 0)) ∧ ((1 : ℕ) : ℤ) = 1 then (1 : ℤ) else 0) =
      if Leap y then 29 else 28
    by_cases hleap : Leap y
    · rw [if_pos hleap, if_pos ⟨hleap, rfl⟩]
      rfl
    · rw [if_neg hleap, if_neg fun h => hleap h.1]
      rfl
  · rw [if_neg fun h => hfeb (Int.ofNat_inj.mp h.2), add_zero]
    interval_cases m
    all_goals first | rfl | exact absurd rfl hfeb

/-- The lengths that the code has are the lengths of the calendar. -/
theorem daysInPeriod_eq {r : Repeat} (hr : OnDays r) (t : ℤ) :
    daysInPeriod r (localtimeAt off t).mon (localtimeAt off t).year =
      (periods r).stop (localDay off t) - (periods r).start (localDay off t) := by
  have hyear : (localtimeAt off t).year + 1900 = yearOf (localDay off t) := sub_add_cancel _ _
  rcases hr with rfl | rfl | rfl
  · show 7 = localDay off t - weekday _ + 7 - (localDay off t - weekday _)
    ring
  · show _ = monthStart _ _ - monthStart _ _
    rw [monthStart_succ _ (monthOf_lt _), add_sub_cancel_left]
    unfold daysInPeriod
    rw [hyear]
    exact monthDays_eq _ (monthOf_lt _)
  · show _ = yearStart _ - yearStart _
    rw [yearStart_succ, add_sub_cancel_left]
    unfold daysInPeriod yearLength
    rw [hyear]
    dsimp only
    by_cases hleap : Leap (yearOf (localDay off t))
    · rw [if_pos hleap]
      unfold Leap at hleap
      rw [if_pos hleap]
      rfl
    · rw [if_neg hleap]
      unfold Leap at hleap
      rw [if_neg hleap, add_zero]

/-- **The days that `next_action` adds** lead to the next number of `DAYS` on the calendar. -/
theorem delta_eq (P : Periods) {first : ℤ} {rest : List ℤ} (hsorted : (first :: rest).Pairwise (· < ·))
    (d : ℤ) : delta first rest (P.number d) (P.stop d - P.start d) = P.aim (first :: rest) d - d := by
  unfold delta Periods.aim
  by_cases hfirst : P.number d < first
  · rw [if_pos hfirst, List.find?_cons_of_pos (p := fun a => decide (P.number d < a)) (decide_eq_true hfirst)]
    dsimp only [Periods.number]
    ring
  rw [if_neg hfirst]
  have hle : ∀ a ∈ first :: rest, a ≤ (first :: rest).getLast (List.cons_ne_nil _ _) :=
    fun a ha => (hsorted.imp fun h => le_of_lt h).rel_getLast ha
  by_cases hlast : (first :: rest).getLast (List.cons_ne_nil _ _) ≤ P.number d
  · have hnone : (first :: rest).find? (P.number d < ·) = none := by
      rw [List.find?_eq_none]
      intro a ha
      have := hle a ha
      rw [decide_eq_true_iff]
      omega
    rw [if_pos hlast, hnone]
    dsimp only [Periods.number, List.headD_cons]
    ring
  · rw [if_neg hlast]
    cases hfind : (first :: rest).find? (P.number d < ·) with
    | none =>
      rw [List.find?_eq_none] at hfind
      have hmem := List.getLast_mem (List.cons_ne_nil first rest)
      exact absurd (decide_eq_true (not_le.mp hlast)) (hfind _ hmem)
    | some a =>
      dsimp only [Option.getD_some, Periods.number]
      ring

/-! ## The new `TIME` -/

/-- The day that `next_action` leads to is right: it is moved back by the midnights that have passed since
the `TIME`, and then it still has a number of `DAYS`, and is still behind the clock. -/
def OnDay (off : ℤ) (s : ScheduledAction) (c : ℤ) : Prop :=
  let P := periods s.repeatType
  let days := splitUnique s.days
  let late := localDay off c - localDay off s.time
  let day := P.aim days (localDay off c) - late
  P.number day ∈ days ∧
    (localDay off c < day ∨ localDay off c = day ∧ timeOfDay off c < timeOfDay off s.time)

instance (off c : ℤ) (s : ScheduledAction) : Decidable (OnDay off s c) :=
  inferInstanceAs (Decidable (_ ∧ _))

/-- What `next_action` makes of a due action for days. -/
theorem nextAction_days (hdays : splitUnique s.days ≠ []) (hr : OnDays s.repeatType)
    (hdue : s.isDue c = true) (off : ℤ) (fuel : ℕ) :
    nextAction (localtimeAt off) fuel s c =
      some (s.time + ((periods s.repeatType).aim (splitUnique s.days) (localDay off c) - localDay off c) *
        86400, { s with done := c }.moveTo (s.time +
          ((periods s.repeatType).aim (splitUnique s.days) (localDay off c) - localDay off c) * 86400)) := by
  have hrepeat : s.repeatType ≠ .NONE := by
    rintro h
    rw [h] at hr
    exact absurd hr (by decide)
  have hhour : s.repeatType ≠ .HOURLY := by
    rintro h
    rw [h] at hr
    exact absurd hr (by decide)
  rcases nextAction_cases (localtimeAt off) fuel s c with ⟨hstop, -⟩ | ⟨-, first, rest, hsplit, hnext⟩
  · exact absurd hstop (not_stops_of_due hrepeat hdays hdue)
  · have hsorted := TextList.sorted_splitUnique s.days
    rw [hsplit] at hsorted
    rw [hnext, nextTime, if_neg hhour, hsplit]
    dsimp only
    rw [currentDay_eq hr, daysInPeriod_eq hr, delta_eq _ hsorted, mul_assoc]
    rfl

/-- **The new `TIME` falls on a requested day** just when the day aimed at does, moved back by the midnights
since the old `TIME`. -/
theorem falls_on_day_iff {type : SchedType} {off : ℤ}
    (hrun : Run (step (localtimeAt off)) (new type) s) (hr : OnDays s.repeatType)
    (hdue : s.isDue c = true) (fuel : ℕ) :
    (∃ t s', nextAction (localtimeAt off) fuel s c = some (t, s') ∧ s.time < t ∧
      timeOfDay off t = timeOfDay off s.time ∧ c < t ∧
        currentDay s.repeatType (localtimeAt off t) ∈ splitUnique s.days) ↔ OnDay off s c := by
  have hrepeat : s.repeatType ≠ .NONE := by
    rintro h
    rw [h] at hr
    exact absurd hr (by decide)
  obtain ⟨hdays, htext⟩ := days_of_run hrun
  have hlt := lt_of_due hdue
  rw [nextAction_days (hdays (htext hrepeat)) hr hdue]
  unfold OnDay
  dsimp only
  generalize hday : (periods s.repeatType).aim (splitUnique s.days) (localDay off c) = day
  have hmoved : localDay off (s.time + (day - localDay off c) * 86400) =
      day - (localDay off c - localDay off s.time) := by
    unfold localDay
    omega
  have hclock : c < s.time + (day - localDay off c) * 86400 ↔
      localDay off c < day - (localDay off c - localDay off s.time) ∨
        localDay off c = day - (localDay off c - localDay off s.time) ∧
          timeOfDay off c < timeOfDay off s.time := by
    unfold localDay timeOfDay
    omega
  constructor
  · rintro ⟨t, s', heq, -, -, hafter, hnumber⟩
    obtain ⟨rfl, -⟩ := Prod.mk.inj (Option.some.inj heq)
    rw [currentDay_eq hr, hmoved] at hnumber
    exact ⟨hnumber, hclock.mp hafter⟩
  · rintro ⟨hnumber, hafter⟩
    have hafter' := hclock.mpr hafter
    refine ⟨_, _, rfl, lt_trans hlt hafter', ?_, hafter', ?_⟩
    · unfold timeOfDay
      omega
    · rw [currentDay_eq hr, hmoved]
      exact hnumber

/-- A new action for every Thursday, just before midnight. -/
def thursdays : AttributeMap :=
  AList.insert "ACTION".toList "terminate".toList (AList.insert "TIME".toList "86000".toList
    (AList.insert "REPEAT".toList "0".toList (AList.insert "DAYS".toList "4".toList ∅)))

/-- The action for every Thursday. -/
def onThursday : ScheduledAction :=
  { new .VM with
    action := "terminate".toList
    time := 86000
    repeatType := .WEEKLY
    days := "4".toList }

theorem parse_thursdays :
    ((new .VM).parse thursdays 0).toOption.map Prod.fst = some onThursday := by
  decide

theorem run_onThursday (localtime : ℤ → LocalTime) : Run (step localtime) (new .VM) onThursday :=
  Reach.tail (e := .parse thursdays 0) Reach.refl trivial parse_thursdays

/-- A run on the Thursday. -/
theorem falls_on_day_onThursday :
    ∃ t s', nextAction (localtimeAt 0) 0 onThursday 86100 = some (t, s') ∧ onThursday.time < t ∧
      timeOfDay 0 t = timeOfDay 0 onThursday.time ∧ 86100 < t ∧
        currentDay onThursday.repeatType (localtimeAt 0 t) ∈ splitUnique onThursday.days :=
  (falls_on_day_iff (run_onThursday _) (by decide) (by decide) 0).mpr (by decide)

/-- A run after midnight, on Friday: the next one is on a Wednesday. -/
theorem not_falls_on_day :
    ¬ ∀ (off : ℤ) (type : SchedType) (s : ScheduledAction) (c : ℤ),
      Run (step (localtimeAt off)) (new type) s → OnDays s.repeatType → s.isDue c = true → ∀ fuel,
        ∃ t s', nextAction (localtimeAt off) fuel s c = some (t, s') ∧ s.time < t ∧
          timeOfDay off t = timeOfDay off s.time ∧ c < t ∧
            currentDay s.repeatType (localtimeAt off t) ∈ splitUnique s.days := by
  intro h
  obtain ⟨t, s', hnext, -, -, -, hnumber⟩ :=
    h 0 .VM onThursday 86460 (run_onThursday _) (by decide) (by decide) 0
  have hdays : splitUnique onThursday.days ≠ [] := by decide
  rw [nextAction_days hdays (by decide) (by decide)] at hnext
  obtain ⟨rfl, -⟩ := Prod.mk.inj (Option.some.inj hnext)
  revert hnumber
  decide

end ScheduledAction
