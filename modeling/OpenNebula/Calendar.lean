/-
# The Gregorian calendar

Days are integers, and day 0 is Thursday, the first of January 1970.  `yearOf`, `monthOf` and `weekday` are
computed; that they are right is `yearStart_yearOf_le` and `lt_yearStart_yearOf` for years (with `yearOf_eq`,
there is only one year like this), and `monthStart_le` and `lt_monthStart` for months.

Weeks, months and years are all ways to cut the days into periods (`Periods`), where a day has a number in
its period.  `Periods.aim` looks for the next day with a number of a list, as one does it with a pencil: the
next number in this period, else the first number in the next period.
-/
import Mathlib

namespace Calendar

/-! ## Years -/

/-- A year with 366 days. -/
def Leap (y : ℤ) : Prop := y % 4 = 0 ∧ (y % 100 ≠ 0 ∨ y % 400 = 0)

instance (y : ℤ) : Decidable (Leap y) := inferInstanceAs (Decidable (_ ∧ _))

/-- The days of a year. -/
def yearLength (y : ℤ) : ℤ := if Leap y then 366 else 365

/-- The first day of a year. -/
def yearStart (y : ℤ) : ℤ :=
  365 * (y - 1970) + ((y - 1) / 4 - (y - 1) / 100 + (y - 1) / 400) - 477

theorem yearStart_succ (y : ℤ) : yearStart (y + 1) = yearStart y + yearLength y := by
  unfold yearStart yearLength Leap
  split_ifs with h
  · omega
  · omega

theorem yearLength_pos (y : ℤ) : 0 < yearLength y := by
  unfold yearLength
  split_ifs
  · decide
  · decide

theorem yearStart_strictMono : StrictMono yearStart := by
  refine strictMono_int_of_lt_succ fun y => ?_
  rw [yearStart_succ]
  have := yearLength_pos y
  omega

/-- The year of a day: the guess with the mean length of a year is at most one off. -/
def yearOf (d : ℤ) : ℤ :=
  let y := 400 * d / 146097 + 1970
  if d < yearStart y then y - 1
  else if yearStart (y + 1) ≤ d then y + 1
  else y

theorem yearStart_yearOf_le (d : ℤ) : yearStart (yearOf d) ≤ d := by
  unfold yearOf
  dsimp only
  split_ifs with hbefore hafter
  · unfold yearStart
    omega
  · exact hafter
  · exact not_lt.mp hbefore

theorem lt_yearStart_yearOf (d : ℤ) : d < yearStart (yearOf d + 1) := by
  unfold yearOf
  dsimp only
  split_ifs with hbefore hafter
  · rwa [sub_add_cancel]
  · unfold yearStart
    omega
  · exact not_le.mp hafter

/-- There is only one year for a day. -/
theorem yearOf_eq {y d : ℤ} (hle : yearStart y ≤ d) (hlt : d < yearStart (y + 1)) : yearOf d = y := by
  have h₁ := yearStart_strictMono.lt_iff_lt.mp (lt_of_le_of_lt hle (lt_yearStart_yearOf d))
  have h₂ := yearStart_strictMono.lt_iff_lt.mp (lt_of_le_of_lt (yearStart_yearOf_le d) hlt)
  omega

/-- The number of days before a day in its year. -/
def dayOfYear (d : ℤ) : ℤ := d - yearStart (yearOf d)

theorem dayOfYear_nonneg (d : ℤ) : 0 ≤ dayOfYear d := sub_nonneg.mpr (yearStart_yearOf_le d)

theorem dayOfYear_lt (d : ℤ) : dayOfYear d < yearLength (yearOf d) := by
  have := lt_yearStart_yearOf d
  rw [yearStart_succ] at this
  unfold dayOfYear
  omega

/-! ## Lists of lengths -/

/-- The part of a list of lengths that a number is in, and how far it is in there. -/
def locate : List ℤ → ℤ → ℕ × ℤ
  | [], d => (0, d)
  | l :: ls, d =>
    if d < l then (0, d) else ((locate ls (d - l)).1 + 1, (locate ls (d - l)).2)

theorem locate_sum (ls : List ℤ) (d : ℤ) : (ls.take (locate ls d).1).sum + (locate ls d).2 = d := by
  induction ls generalizing d with
  | nil => exact zero_add d
  | cons l ls ih =>
    rw [locate]
    split_ifs with hlt
    · exact zero_add d
    · rw [List.take_succ_cons, List.sum_cons, add_assoc, ih]
      ring

theorem locate_lt {ls : List ℤ} {d : ℤ} (hlt : d < ls.sum) (hpos : 0 ≤ d) :
    (locate ls d).1 < ls.length := by
  induction ls generalizing d with
  | nil => exact absurd hlt (not_lt.mpr hpos)
  | cons l ls ih =>
    rw [List.sum_cons] at hlt
    rw [locate]
    split_ifs with hl
    · exact Nat.succ_pos _
    · exact Nat.succ_lt_succ (ih (by omega) (by omega))

theorem locate_nonneg {ls : List ℤ} {d : ℤ} (hpos : 0 ≤ d) : 0 ≤ (locate ls d).2 := by
  induction ls generalizing d with
  | nil => exact hpos
  | cons l ls ih =>
    rw [locate]
    split_ifs with hl
    · exact hpos
    · exact ih (by omega)

theorem lt_sum_take_locate {ls : List ℤ} {d : ℤ} (hlt : d < ls.sum) :
    d < (ls.take ((locate ls d).1 + 1)).sum := by
  induction ls generalizing d with
  | nil => exact hlt
  | cons l ls ih =>
    rw [List.sum_cons] at hlt
    rw [locate, List.take_succ_cons, List.sum_cons]
    split_ifs with hl
    · rw [List.take_zero, List.sum_nil]
      omega
    · dsimp only
      have := ih (show d - l < ls.sum by omega)
      omega

/-- There is only one part for a number. -/
theorem locate_eq {ls : List ℤ} (hnonneg : ∀ l ∈ ls, 0 ≤ l) {m : ℕ} {d : ℤ} (hm : m < ls.length)
    (hle : (ls.take m).sum ≤ d) (hlt : d < (ls.take (m + 1)).sum) : (locate ls d).1 = m := by
  induction ls generalizing m d with
  | nil => exact absurd hm (Nat.not_lt_zero m)
  | cons l ls ih =>
    have hrest : ∀ l' ∈ ls, 0 ≤ l' := fun l' hl' => hnonneg l' (List.mem_cons_of_mem l hl')
    rw [List.take_succ_cons, List.sum_cons] at hlt
    rw [locate]
    cases m with
    | zero =>
      rw [List.take_zero, List.sum_nil] at hlt
      rw [if_pos (by omega)]
    | succ m =>
      rw [List.take_succ_cons, List.sum_cons] at hle
      have hsum : 0 ≤ (ls.take m).sum :=
        List.sum_nonneg fun l' hl' => hrest l' (List.mem_of_mem_take hl')
      rw [if_neg (by omega)]
      have := ih hrest (Nat.lt_of_succ_lt_succ hm) (show (ls.take m).sum ≤ d - l by omega) (by omega)
      rw [this]

/-! ## Months -/

/-- The days of the months of a year. -/
def monthLengths (y : ℤ) : List ℤ :=
  [31, if Leap y then 29 else 28, 31, 30, 31, 30, 31, 31, 30, 31, 30, 31]

theorem sum_monthLengths (y : ℤ) : (monthLengths y).sum = yearLength y := by
  unfold monthLengths yearLength
  split_ifs
  · rfl
  · rfl

theorem monthLengths_pos {y l : ℤ} (h : l ∈ monthLengths y) : 28 ≤ l := by
  unfold monthLengths at h
  fin_cases h
  all_goals first | decide | (split_ifs <;> decide)

/-- The first day of a month, where months start from 0. -/
def monthStart (y : ℤ) (m : ℕ) : ℤ := yearStart y + ((monthLengths y).take m).sum

/-- The month of a day, from 0. -/
def monthOf (d : ℤ) : ℕ := (locate (monthLengths (yearOf d)) (dayOfYear d)).1

/-- The day of the month, from 1. -/
def dayOfMonth (d : ℤ) : ℤ := (locate (monthLengths (yearOf d)) (dayOfYear d)).2 + 1

theorem monthOf_lt (d : ℤ) : monthOf d < 12 := by
  refine locate_lt ?_ (dayOfYear_nonneg d)
  rw [sum_monthLengths]
  exact dayOfYear_lt d

theorem dayOfMonth_eq (d : ℤ) : dayOfMonth d = d - monthStart (yearOf d) (monthOf d) + 1 := by
  have := locate_sum (monthLengths (yearOf d)) (dayOfYear d)
  unfold monthStart dayOfMonth monthOf
  unfold dayOfYear at *
  omega

theorem monthStart_le (d : ℤ) : monthStart (yearOf d) (monthOf d) ≤ d := by
  have h₁ := dayOfMonth_eq d
  have h₂ : 0 ≤ (locate (monthLengths (yearOf d)) (dayOfYear d)).2 := locate_nonneg (dayOfYear_nonneg d)
  unfold dayOfMonth at h₁
  omega

theorem lt_monthStart (d : ℤ) : d < monthStart (yearOf d) (monthOf d + 1) := by
  have hlt : dayOfYear d < (monthLengths (yearOf d)).sum := by
    rw [sum_monthLengths]
    exact dayOfYear_lt d
  have := lt_sum_take_locate hlt
  unfold monthStart monthOf
  unfold dayOfYear at *
  omega

theorem monthStart_twelve (y : ℤ) : monthStart y 12 = monthStart (y + 1) 0 := by
  unfold monthStart
  rw [List.take_zero, List.sum_nil, add_zero, yearStart_succ, ← sum_monthLengths]
  rfl

theorem monthStart_succ (y : ℤ) {m : ℕ} (hm : m < 12) :
    monthStart y (m + 1) = monthStart y m + (monthLengths y).getD m 0 := by
  have hlen : m < (monthLengths y).length := hm
  unfold monthStart
  rw [List.take_succ_eq_append_getElem hlen, List.sum_append, List.sum_singleton, ← add_assoc,
    List.getD_eq_getElem _ 0 hlen]

theorem monthStart_lt (y : ℤ) {m : ℕ} (hm : m < 12) : monthStart y m < monthStart y (m + 1) := by
  have hlen : m < (monthLengths y).length := hm
  have := monthLengths_pos (List.getElem_mem hlen)
  rw [monthStart_succ y hm, List.getD_eq_getElem _ 0 hlen]
  omega

/-- There is only one month for a day. -/
theorem monthOf_eq {y d : ℤ} {m : ℕ} (hm : m < 12) (hle : monthStart y m ≤ d)
    (hlt : d < monthStart y (m + 1)) : yearOf d = y ∧ monthOf d = m := by
  have hnonneg : ∀ l ∈ monthLengths y, 0 ≤ l := fun l hl => le_trans (by decide) (monthLengths_pos hl)
  have hsum : ((monthLengths y).take (m + 1)).sum ≤ yearLength y := by
    rw [← sum_monthLengths, ← List.sum_take_add_sum_drop (monthLengths y) (m + 1)]
    exact le_add_of_nonneg_right (List.sum_nonneg fun l hl => hnonneg l (List.mem_of_mem_drop hl))
  have hpos : 0 ≤ ((monthLengths y).take m).sum :=
    List.sum_nonneg fun l hl => hnonneg l (List.mem_of_mem_take hl)
  unfold monthStart at hle hlt
  have hyear : yearOf d = y := by
    refine yearOf_eq (by omega) ?_
    rw [yearStart_succ]
    omega
  refine ⟨hyear, ?_⟩
  unfold monthOf dayOfYear
  rw [hyear]
  exact locate_eq hnonneg hm (by omega) (by omega)

/-! ## Weeks -/

/-- The day of the week, from 0 for Sunday. -/
def weekday (d : ℤ) : ℤ := (d + 4) % 7

/-! ## Periods -/

/-- The days cut into periods: `start` is the first day of the period of a day, `stop` the first day of the
next one, and `base` is the number that the first day has. -/
structure Periods where
  start : ℤ → ℤ
  stop : ℤ → ℤ
  base : ℤ
  start_le : ∀ d, start d ≤ d
  lt_stop : ∀ d, d < stop d
  start_eq : ∀ d e, start d ≤ e → e < stop d → start e = start d
  start_stop : ∀ d, start (stop d) = stop d

namespace Periods

variable (P : Periods)

/-- The number of a day in its period. -/
def number (d : ℤ) : ℤ := d - P.start d + P.base

/-- The next day with a number of the list, as long as all the numbers exist. -/
def aim (numbers : List ℤ) (d : ℤ) : ℤ :=
  match numbers.find? (P.number d < ·) with
  | some a => P.start d + (a - P.base)
  | none => P.stop d + (numbers.headD P.base - P.base)

variable {P} {numbers : List ℤ} {d : ℤ}

end Periods

/-- Weeks, where Sunday has the number 0. -/
def weeks : Periods where
  start d := d - weekday d
  stop d := d - weekday d + 7
  base := 0
  start_le d := by
    unfold weekday
    omega
  lt_stop d := by
    unfold weekday
    omega
  start_eq d e hle hlt := by
    unfold weekday at *
    omega
  start_stop d := by
    unfold weekday
    omega

/-- Months, where the first day has the number 1. -/
def months : Periods where
  start d := monthStart (yearOf d) (monthOf d)
  stop d := monthStart (yearOf d) (monthOf d + 1)
  base := 1
  start_le := monthStart_le
  lt_stop := lt_monthStart
  start_eq d e hle hlt := by
    obtain ⟨hyear, hmonth⟩ := monthOf_eq (monthOf_lt d) hle hlt
    rw [hyear, hmonth]
  start_stop d := by
    have hm := monthOf_lt d
    rcases Nat.lt_or_ge (monthOf d + 1) 12 with hlt | hge
    · obtain ⟨hyear, hmonth⟩ := monthOf_eq hlt le_rfl (monthStart_lt (yearOf d) hlt)
      rw [hyear, hmonth]
    · rw [show monthOf d + 1 = 12 by omega, monthStart_twelve]
      obtain ⟨hyear, hmonth⟩ := monthOf_eq (show 0 < 12 by decide) le_rfl
        (monthStart_lt (yearOf d + 1) (show 0 < 12 by decide))
      rw [hyear, hmonth]

/-- Years, where the first day has the number 0. -/
def years : Periods where
  start d := yearStart (yearOf d)
  stop d := yearStart (yearOf d + 1)
  base := 0
  start_le := yearStart_yearOf_le
  lt_stop := lt_yearStart_yearOf
  start_eq d e hle hlt := by rw [yearOf_eq hle hlt]
  start_stop d := by rw [yearOf_eq le_rfl (yearStart_strictMono (lt_add_one _))]

end Calendar
