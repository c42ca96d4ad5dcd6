/-
# How often a scheduled action runs

The scheduler tests `is_due` at some clock times, and when the action is due it runs it and calls
`next_action`.  It never runs an action more often than `END_VALUE` says, or after the date.  It runs it
exactly as often when each new `TIME` is behind the clock: an action whose new `TIME` is not later than the
last run counts as done, and never runs again (`count_of_schedule`).

A call of `next_action` that does not return leaves no action: nothing runs after it.
-/
import OpenNebula.ScheduledRuns

open TextNumber Transition

namespace ScheduledAction

variable {localtime : ℤ → LocalTime} {s s' : ScheduledAction} {c : ℤ}

/-! ## The scheduler -/

/-- The action, if the calls have returned, and how often it has run. -/
abbrev Progress := Option ScheduledAction × ℕ

/-- The scheduler at one clock time. -/
def Ticks (localtime : ℤ → LocalTime) (c : ℤ) : Progress → Progress → Prop
  | (none, k), y => y = (none, k)
  | (some s, k), y =>
    if s.isDue c then
      y.2 = k + 1 ∧
        match y.1 with
        | some s' => ∃ fuel r, nextAction localtime fuel s c = some (r, s')
        | none => ¬ Returns localtime s c
    else y = (some s, k)

/-- The scheduler at a sequence of clock times. -/
def Execution (localtime : ℤ → LocalTime) (s : ScheduledAction) (clock : ℕ → ℤ)
    (σ : ℕ → Progress) : Prop :=
  σ 0 = (some s, 0) ∧ ∀ i, Ticks localtime (clock i) (σ i) (σ (i + 1))

/-- The action runs at the `i`-th clock time. -/
def RunsAt (clock : ℕ → ℤ) (σ : ℕ → Progress) (i : ℕ) : Prop :=
  ∃ s, (σ i).1 = some s ∧ s.isDue (clock i)

/-- The clock gets behind every time, again and again. -/
def Advances (clock : ℕ → ℤ) : Prop := ∀ b j, ∃ i, j ≤ i ∧ b < clock i

/-- The last run is not before the `TIME`. -/
def Done (s : ScheduledAction) : Prop := 0 < s.done ∧ s.time ≤ s.done

/-- The next `TIME` is later than the clock.  An hourly action is at the clock when whole steps lead there;
for days the `TIME` is not moved from the clock but from the old `TIME`. -/
def GetsAhead (localtime : ℤ → LocalTime) (s : ScheduledAction) (c : ℤ) : Prop :=
  ∀ first rest, splitUnique s.days = first :: rest →
    if s.repeatType = .HOURLY then 0 < first ∧ (0 < c → ¬ first * 3600 ∣ c - s.time)
    else
      0 < c → c - s.time <
        delta first rest (currentDay s.repeatType (localtime c))
          (daysInPeriod s.repeatType (localtime c).mon (localtime c).year) * 24 * 3600

/-! ## One run -/

theorem not_due_of_done (h : Done s) : s.isDue c = false := by
  have hdone : 0 < s.done ∧ s.time ≤ s.done := h
  unfold isDue
  dsimp only
  rw [if_pos hdone, ite_self]

theorem due_iff_of_times (h : s.endType = .TIMES) :
    s.isDue c = true ↔ 0 < s.endValue ∧ ¬ Done s ∧ s.time < c := by
  unfold isDue Done
  rw [h]
  dsimp only
  by_cases hend : s.endValue ≤ 0
  · rw [if_pos (decide_eq_true hend)]
    exact ⟨fun h => absurd h Bool.false_ne_true, fun h => absurd h.1 (by omega)⟩
  · rw [if_neg (by simpa using hend)]
    by_cases hdone : 0 < s.done ∧ s.time ≤ s.done
    · rw [if_pos hdone]
      exact ⟨fun h => absurd h Bool.false_ne_true, fun h => absurd hdone h.2.1⟩
    · rw [if_neg hdone, decide_eq_true_iff]
      exact ⟨fun h => ⟨by omega, hdone, h⟩, fun h => h.2.2⟩

theorem le_of_due_of_date (h : s.endType = .DATE) (hdue : s.isDue c = true) : c ≤ s.endValue := by
  unfold isDue at hdue
  rw [h] at hdue
  dsimp only at hdue
  by_cases hend : s.endValue < c
  · rw [if_pos (decide_eq_true hend)] at hdue
    exact absurd hdue Bool.false_ne_true
  · exact not_lt.mp hend

theorem ticks_of_not_due {k : ℕ} {y : Progress} (h : s.isDue c = false) :
    Ticks localtime c (some s, k) y ↔ y = (some s, k) := by
  unfold Ticks
  dsimp only
  rw [h, if_neg Bool.false_ne_true]

theorem ticks_of_due {k : ℕ} {y : Progress} (h : s.isDue c = true) :
    Ticks localtime c (some s, k) y ↔ y.2 = k + 1 ∧
      match y.1 with
      | some s' => ∃ fuel r, nextAction localtime fuel s c = some (r, s')
      | none => ¬ Returns localtime s c := by
  unfold Ticks
  dsimp only
  rw [if_pos h]

theorem lt_of_due (h : s.isDue c = true) : s.time < c := by
  by_contra hge
  unfold isDue at h
  dsimp only at h
  rw [decide_eq_false hge, ite_self, ite_self] at h
  exact Bool.false_ne_true h

/-- A due action that repeats does not stop. -/
theorem not_stops_of_due (hrepeat : s.repeatType ≠ .NONE) (hdays : splitUnique s.days ≠ [])
    (hdue : s.isDue c = true) : ¬ Stops s c := by
  rintro (hs | hs | hs | hs)
  · exact hrepeat hs
  · exact hdays hs
  · have := ((due_iff_of_times hs.1).mp hdue).1
    omega
  · have := le_of_due_of_date hs.1 hdue
    omega

/-- An action that repeats a number of times, with `k` runs made and `n` in all. -/
structure Counts (n k : ℕ) (s : ScheduledAction) : Prop where
  repeats : s.repeatType ≠ .NONE
  days : splitUnique s.days ≠ []
  times : s.endType = .TIMES
  left : s.endValue + k = n

/-- What a run of a due action leaves: one run less, and the new `TIME`. -/
theorem Counts.next {n k fuel : ℕ} {r : ℤ} (h : Counts n k s) (hdue : s.isDue c = true)
    (hnext : nextAction localtime fuel s c = some (r, s')) :
    Counts n (k + 1) s' ∧ s'.done = c ∧ ∃ first rest, splitUnique s.days = first :: rest ∧
      nextTime localtime fuel { s with done := c } first rest c = some s'.time := by
  rcases nextAction_cases localtime fuel s c with ⟨hstop, -⟩ | ⟨-, first, rest, hdays, heq⟩
  · exact absurd hstop (not_stops_of_due h.repeats h.days hdue)
  · rw [heq] at hnext
    obtain ⟨time, htime, hpair⟩ := Option.map_eq_some_iff.mp hnext
    obtain ⟨-, rfl⟩ := Prod.mk.inj hpair
    refine ⟨⟨h.repeats, h.days, h.times, ?_⟩, rfl, first, rest, hdays, htime⟩
    show (if s.endType = .TIMES then s.endValue - 1 else s.endValue) + ((k + 1 : ℕ) : ℤ) = n
    rw [if_pos h.times, ← h.left]
    push_cast
    ring

/-- **The next `TIME`** lets the action run again just when it gets ahead of the clock. -/
theorem Counts.done_iff {n k fuel : ℕ} {r : ℤ} (h : Counts n k s) (hdue : s.isDue c = true)
    (hnext : nextAction localtime fuel s c = some (r, s')) : ¬ Done s' ↔ GetsAhead localtime s c := by
  obtain ⟨-, hdone, first, rest, hdays, htime⟩ := h.next hdue hnext
  have hlt := ((due_iff_of_times h.times).mp hdue).2.2
  have hahead : GetsAhead localtime s c ↔
      if s.repeatType = .HOURLY then 0 < first ∧ (0 < c → ¬ first * 3600 ∣ c - s.time)
      else 0 < c → c - s.time < delta first rest (currentDay s.repeatType (localtime c))
        (daysInPeriod s.repeatType (localtime c).mon (localtime c).year) * 24 * 3600 := by
    refine ⟨fun hall => hall first rest hdays, fun hone first' rest' hdays' => ?_⟩
    obtain ⟨rfl, rfl⟩ := List.cons.inj (hdays.symm.trans hdays')
    exact hone
  rw [hahead, Done, hdone]
  unfold nextTime at htime
  dsimp only at htime
  by_cases hhour : s.repeatType = .HOURLY
  · rw [if_pos hhour] at htime ⊢
    obtain ⟨hle, hbelow, hdvd⟩ := hourLoop_spec hlt htime
    have hfirst : 0 < first := by omega
    -- The new time is the clock just when whole steps lead there.
    have hclock : s'.time ≤ c ↔ first * 3600 ∣ c - s.time := by
      constructor
      · intro hge
        rwa [show c = s'.time by omega]
      · intro hdvd'
        have hdiff : first * 3600 ∣ s'.time - c := by
          have heq : s'.time - c = s'.time - s.time - (c - s.time) := by ring
          rw [heq]
          exact dvd_sub hdvd hdvd'
        have hzero := Int.eq_zero_of_dvd_of_nonneg_of_lt (by omega) (by omega) hdiff
        omega
    rw [hclock]
    tauto
  · rw [if_neg hhour] at htime ⊢
    have htime' := Option.some.inj htime
    rw [← htime', not_and, not_le]
    constructor
    · intro h hc
      have := h hc
      omega
    · intro h hc
      have := h hc
      omega

theorem Counts.returns {n k : ℕ} (h : Counts n k s) (hahead : GetsAhead localtime s c) :
    Returns localtime s c := by
  refine returns_of_moves localtime (fun hhour first hfirst => ?_) c
  cases hdays : splitUnique s.days with
  | nil => exact absurd hdays h.days
  | cons first' rest =>
    rw [hdays] at hfirst
    obtain rfl := Option.some.inj hfirst
    have hgo := hahead first' rest hdays
    rw [if_pos hhour] at hgo
    exact hgo.1

/-! ## The runs of an execution -/

section Execution

variable {clock : ℕ → ℤ} {σ : ℕ → Progress} {x y : Progress} {n : ℕ}

/-- What holds of an action that repeats a number of times. -/
def Within (n : ℕ) (x : Progress) : Prop := x.2 ≤ n ∧ ∀ s, x.1 = some s → Counts n x.2 s

theorem Within.tick (h : Within n x) (ht : Ticks localtime c x y) : Within n y := by
  obtain ⟨_ | s, k⟩ := x
  · rw [show y = (none, k) from ht]
    exact h
  · have hs : Counts n k s := h.2 s rfl
    unfold Ticks at ht
    dsimp only at ht
    split_ifs at ht with hdue
    · obtain ⟨hk, hy⟩ := ht
      have hpos := ((due_iff_of_times hs.times).mp hdue).1
      have hleft := hs.left
      refine ⟨by omega, ?_⟩
      intro s' hs'
      rw [hs'] at hy
      obtain ⟨fuel, r, hnext⟩ := hy
      rw [hk]
      exact (hs.next hdue hnext).1
    · rw [ht]
      exact h

theorem within_of_execution (hexec : Execution localtime s clock σ) (hs : Counts n 0 s) (i : ℕ) :
    Within n (σ i) := by
  induction i with
  | zero =>
    rw [hexec.1]
    refine ⟨Nat.zero_le n, ?_⟩
    rintro s' ⟨⟩
    exact hs
  | succ i ih => exact ih.tick (hexec.2 i)

theorem count_le_of_ticks (ht : Ticks localtime c x y) : x.2 ≤ y.2 := by
  obtain ⟨_ | s, k⟩ := x
  · rw [show y = (none, k) from ht]
  · unfold Ticks at ht
    dsimp only at ht
    split_ifs at ht with hdue
    · rw [ht.1]
      exact Nat.le_succ k
    · rw [ht]

/-- The action does not run any more. -/
def Frozen (x : Progress) : Prop := ∀ s, x.1 = some s → Done s

theorem Frozen.tick (h : Frozen x) (ht : Ticks localtime c x y) : y = x := by
  obtain ⟨_ | s, k⟩ := x
  · exact ht
  · exact (ticks_of_not_due (not_due_of_done (h s rfl))).mp ht

theorem Frozen.stays (hexec : Execution localtime s clock σ) {i j : ℕ} (h : Frozen (σ i))
    (hij : i ≤ j) : σ j = σ i := by
  induction j, hij using Nat.le_induction with
  | base => rfl
  | succ j _ ih =>
    rw [← ih] at h
    rw [h.tick (hexec.2 j), ih]

/-- An action that is not due stays as it is. -/
theorem waits (hexec : Execution localtime s clock σ) {i j : ℕ} (hs : (σ i).1 = some s')
    (hij : i ≤ j) (hnot : ∀ m, i ≤ m → m < j → s'.isDue (clock m) = false) : σ j = σ i := by
  induction j, hij using Nat.le_induction with
  | base => rfl
  | succ j hij ih =>
    have hj : σ j = σ i := ih fun m him hmj => hnot m him (Nat.lt_succ_of_lt hmj)
    have ht := hexec.2 j
    rw [hj, show σ i = (some s', (σ i).2) from Prod.ext hs rfl] at ht
    rw [(ticks_of_not_due (hnot j hij (Nat.lt_succ_self j))).mp ht]
    exact Prod.ext hs.symm rfl

/-- An action that has runs left and is not done gets its turn. -/
theorem exists_run (hexec : Execution localtime s clock σ) (hclock : Advances clock) {i : ℕ}
    (hs : (σ i).1 = some s') (hcounts : Counts n (σ i).2 s') (hlt : (σ i).2 < n) (hdone : ¬ Done s') :
    ∃ j, σ j = σ i ∧ s'.isDue (clock j) = true := by
  have hleft := hcounts.left
  have hex : ∃ j, i ≤ j ∧ s'.isDue (clock j) = true := by
    obtain ⟨j, hij, hj⟩ := hclock s'.time i
    exact ⟨j, hij, (due_iff_of_times hcounts.times).mpr ⟨by omega, hdone, hj⟩⟩
  -- the first clock time at which it is due
  classical
  obtain ⟨hij, hdue⟩ := Nat.find_spec hex
  refine ⟨Nat.find hex, waits hexec hs hij ?_, hdue⟩
  intro m him hm
  rw [← Bool.not_eq_true]
  exact fun h => Nat.find_min hex hm ⟨him, h⟩

/-- A run after which the next `TIME` is ahead leaves an action that is not done. -/
theorem run_of_getsAhead (hexec : Execution localtime s clock σ) {i : ℕ} (hs : (σ i).1 = some s')
    (hcounts : Counts n (σ i).2 s') (hdue : s'.isDue (clock i) = true) :
    (σ (i + 1)).2 = (σ i).2 + 1 ∧
      (Frozen (σ (i + 1)) ↔ ¬ GetsAhead localtime s' (clock i)) := by
  have ht := hexec.2 i
  rw [show σ i = (some s', (σ i).2) from Prod.ext hs rfl] at ht
  obtain ⟨hk, hy⟩ := (ticks_of_due hdue).mp ht
  refine ⟨hk, ?_⟩
  cases hnext : (σ (i + 1)).1 with
  | none =>
    rw [hnext] at hy
    refine ⟨fun _ hahead => hy (hcounts.returns hahead), fun _ s'' hs'' => ?_⟩
    exact absurd (hnext.symm.trans hs'') (Option.some_ne_none s'').symm
  | some s'' =>
    rw [hnext] at hy
    obtain ⟨fuel, r, hr⟩ := hy
    rw [← hcounts.done_iff hdue hr, not_not]
    refine ⟨fun h => h s'' hnext, fun h t ht => ?_⟩
    obtain rfl := Option.some.inj (hnext.symm.trans ht)
    exact h

/-- When every new `TIME` is ahead, all the runs are made one after the other. -/
theorem exists_count (hexec : Execution localtime s clock σ) (hclock : Advances clock)
    (hcounts : Counts n 0 s) (hstart : n ≠ 0 → ¬ Done s)
    (hahead : ∀ i s', (σ i).1 = some s' → s'.isDue (clock i) = true → (σ i).2 + 1 < n →
      GetsAhead localtime s' (clock i)) {m : ℕ} (hm : m ≤ n) :
    ∃ i, (σ i).2 = m ∧ (m < n → ¬ Frozen (σ i)) := by
  induction m with
  | zero =>
    refine ⟨0, by rw [hexec.1], fun hpos hfrozen => ?_⟩
    rw [hexec.1] at hfrozen
    exact hstart (by omega) (hfrozen s rfl)
  | succ m ih =>
    obtain ⟨i, hi, hfree⟩ := ih (by omega)
    have hfree' := hfree (by omega)
    unfold Frozen at hfree'
    push Not at hfree'
    obtain ⟨s', hs', hdone⟩ := hfree'
    have hs := (within_of_execution hexec hcounts i).2 s' hs'
    obtain ⟨j, hj, hdue⟩ := exists_run hexec hclock hs' hs (by omega) hdone
    rw [← hj] at hs' hs hi
    obtain ⟨hk, hfrozen⟩ := run_of_getsAhead hexec hs' hs hdue
    refine ⟨j + 1, by omega, fun hlt hstop => ?_⟩
    exact hfrozen.mp hstop (hahead j s' hs' hdue (by omega))

/-- An action that gets frozen before its last run does not make it. -/
theorem not_frozen (hexec : Execution localtime s clock σ) (hn : ∃ i, (σ i).2 = n) {j : ℕ}
    (hlt : (σ j).2 < n) : ¬ Frozen (σ j) := by
  intro hfrozen
  obtain ⟨i, hi⟩ := hn
  rcases le_total j i with hji | hij
  · rw [hfrozen.stays hexec hji] at hi
    omega
  · have hmono : Monotone fun i => (σ i).2 :=
      monotone_nat_of_le_succ fun i => count_le_of_ticks (hexec.2 i)
    have := hmono hij
    dsimp only at this
    omega

theorem date_of_execution (hexec : Execution localtime s clock σ) (hdate : s.endType = .DATE) (i : ℕ) :
    ∀ s', (σ i).1 = some s' → s'.endType = .DATE ∧ s'.endValue = s.endValue := by
  induction i with
  | zero =>
    intro s' hs'
    rw [hexec.1] at hs'
    obtain rfl := Option.some.inj hs'
    exact ⟨hdate, rfl⟩
  | succ i ih =>
    intro s' hs'
    have ht := hexec.2 i
    rcases hσ : σ i with ⟨_ | t, k⟩
    · rw [hσ] at ht
      rw [show σ (i + 1) = (none, k) from ht] at hs'
      exact absurd hs' (Option.some_ne_none s').symm
    · obtain ⟨htype, hvalue⟩ := ih t (by rw [hσ])
      rw [hσ] at ht
      unfold Ticks at ht
      dsimp only at ht
      split_ifs at ht with hdue
      · rw [hs'] at ht
        obtain ⟨-, fuel, r, hnext⟩ := ht
        rcases nextAction_cases localtime fuel t (clock i) with ⟨-, heq⟩ | ⟨-, first, rest, -, heq⟩
        · rw [heq] at hnext
          obtain ⟨-, rfl⟩ := Prod.mk.inj (Option.some.inj hnext)
          exact ⟨htype, hvalue⟩
        · rw [heq] at hnext
          obtain ⟨time, -, hpair⟩ := Option.map_eq_some_iff.mp hnext
          obtain ⟨-, rfl⟩ := Prod.mk.inj hpair
          refine ⟨htype, ?_⟩
          show (if t.endType = .TIMES then t.endValue - 1 else t.endValue) = s.endValue
          rw [if_neg (by rw [htype]; decide), hvalue]
      · rw [ht] at hs'
        obtain rfl := Option.some.inj hs'
        exact ⟨htype, hvalue⟩

end Execution

/-- A new action for three runs, one every hour. -/
def threeHours : AttributeMap :=
  AList.insert "ACTION".toList "terminate".toList (AList.insert "TIME".toList "1000".toList
    (AList.insert "REPEAT".toList "3".toList (AList.insert "DAYS".toList "1".toList
      (AList.insert "END_TYPE".toList "1".toList (AList.insert "END_VALUE".toList "3".toList ∅)))))

/-- The action for three runs. -/
def everyHour : ScheduledAction :=
  { new .VM with
    action := "terminate".toList
    time := 1000
    repeatType := .HOURLY
    days := "1".toList
    endType := .TIMES
    endValue := 3 }

theorem parse_threeHours :
    ((new .VM).parse threeHours 0).toOption.map Prod.fst = some everyHour := by
  decide

theorem run_everyHour (localtime : ℤ → LocalTime) : Run (step localtime) (new .VM) everyHour :=
  Reach.tail (e := .parse threeHours 0) Reach.refl trivial parse_threeHours

/-- The action after some runs, each one second after its `TIME`. -/
def onTime : ℕ → Progress
  | 0 => (some everyHour, 0)
  | 1 => (some { everyHour with done := 1001, time := 4600, endValue := 2 }, 1)
  | 2 => (some { everyHour with done := 4601, time := 8200, endValue := 1 }, 2)
  | _ + 3 => (some { everyHour with done := 8201, time := 11800, endValue := 0 }, 3)

theorem execution_onTime :
    Execution (fun _ => ⟨0, 0, 0, 0, 0⟩) everyHour (fun i => 1001 + 3600 * i) onTime := by
  refine ⟨rfl, fun i => ?_⟩
  match i with
  | 0 => exact (ticks_of_due (by decide)).mpr ⟨rfl, 1, 4600, by decide⟩
  | 1 => exact (ticks_of_due (by decide)).mpr ⟨rfl, 1, 8200, by decide⟩
  | 2 => exact (ticks_of_due (by decide)).mpr ⟨rfl, 1, 11800, by decide⟩
  | i + 3 => exact (ticks_of_not_due rfl).mpr rfl

theorem getsAhead_everyHour {e : ℤ} {s : ScheduledAction} (hs : s.repeatType = .HOURLY)
    (hdays : s.days = "1".toList) (he : e - s.time = 1) :
    GetsAhead (fun _ => ⟨0, 0, 0, 0, 0⟩) s e := by
  intro first rest hsplit
  rw [hdays, show splitUnique "1".toList = [1] by decide] at hsplit
  obtain ⟨rfl, -⟩ := List.cons.inj hsplit
  rw [if_pos hs, he]
  exact ⟨one_pos, fun _ => by norm_num⟩

/-- It runs one hour late, when the next run would be. -/
def hourLate : ℕ → Progress
  | 0 => (some everyHour, 0)
  | _ + 1 => (some { everyHour with done := 4600, time := 4600, endValue := 2 }, 1)

theorem execution_hourLate :
    Execution (fun _ => ⟨0, 0, 0, 0, 0⟩) everyHour (fun i => 4600 + i) hourLate := by
  refine ⟨rfl, fun i => ?_⟩
  cases i with
  | zero => exact (ticks_of_due (by decide)).mpr ⟨rfl, 1, 4600, by decide⟩
  | succ i =>
    have hdone : Done { everyHour with done := 4600, time := 4600, endValue := 2 } := by
      unfold Done
      decide
    exact (ticks_of_not_due (not_due_of_done hdone)).mpr rfl

end ScheduledAction
