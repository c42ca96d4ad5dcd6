/-
# The targets of the disks (`src/vm/VirtualMachineDisk.cc`)

A disk without `TARGET` gets the first name that no other disk and not the context disk has: its prefix
and then `a`, …, `z`, `aa`, `ab`, ….  These are the numerals with the digits 1 to 26
(`numeralValue_letters`, `exists_letters`), so there are more of them than used targets and the search
ends (`search_first`).

The three queues of `get_images`, the given targets and the context disk share one set of used targets,
and `set_up_attach` collects it again from the disks: no two of them have the same target, in every run
(`targets_distinct`).
-/
import OpenNebula.VirtualMachineDisks

open Transition ImageManager

namespace VirtualMachineDisks

/-! ## Numerals -/

/-- The inner loop of `assign_disk_targets`, from a remainder and a quotient on. -/
def numeralLoop (remainder quotient : ℕ) (temp : List Char) : List Char :=
  if 0 < quotient then
    numeralLoop ((quotient - 1) % 26) ((quotient - 1) / 26) (Char.ofNat (97 + remainder) :: temp)
  else Char.ofNat (97 + remainder) :: temp
termination_by quotient
decreasing_by omega

/-- The loop puts the letters of the index before the text. -/
theorem numeralLoop_eq (index : ℕ) :
    ∀ temp, numeralLoop (index % 26) (index / 26) temp = letters index ++ temp := by
  induction index using Nat.strong_induction_on with
  | _ index ih =>
    intro temp
    rw [numeralLoop]
    rcases Nat.lt_or_ge index 26 with hlt | hge
    · rw [if_neg (by omega), letters_lt hlt, Nat.mod_eq_of_lt hlt]
      rfl
    · rw [if_pos (by omega), ih (index / 26 - 1) (by omega), letters_ge hge, List.append_assoc]
      rfl

/-- The value of a text of letters in base 26, with the digits from 1 to 26. -/
def numeralValue (w : List Char) : ℕ := w.foldl (fun v c => 26 * v + (c.toNat - 96)) 0

theorem numeralValue_concat (w : List Char) (c : Char) :
    numeralValue (w ++ [c]) = 26 * numeralValue w + (c.toNat - 96) := by
  rw [numeralValue, List.foldl_append]
  rfl

/-- A letter from `a` to `z`. -/
def IsLetter (c : Char) : Prop := ∃ i < 26, c = Char.ofNat (97 + i)

theorem toNat_letter : ∀ i < 26, (Char.ofNat (97 + i)).toNat = 97 + i := by
  decide

/-- **The letters of an index are the numeral of its successor.** -/
theorem numeralValue_letters (index : ℕ) : numeralValue (letters index) = index + 1 := by
  induction index using Nat.strong_induction_on with
  | _ index ih =>
    rcases Nat.lt_or_ge index 26 with hlt | hge
    · rw [letters_lt hlt]
      change 26 * 0 + ((Char.ofNat (97 + index)).toNat - 96) = index + 1
      rw [toNat_letter index hlt]
      omega
    · rw [letters_ge hge, numeralValue_concat, ih (index / 26 - 1) (by omega),
        toNat_letter (index % 26) (Nat.mod_lt index (by decide))]
      omega

theorem isLetter_letters (index : ℕ) : ∀ c ∈ letters index, IsLetter c := by
  induction index using Nat.strong_induction_on with
  | _ index ih =>
    intro c hc
    rcases Nat.lt_or_ge index 26 with hlt | hge
    · rw [letters_lt hlt, List.mem_singleton] at hc
      exact ⟨index, hlt, hc⟩
    · rw [letters_ge hge, List.mem_append, List.mem_singleton] at hc
      rcases hc with hc | hc
      · exact ih (index / 26 - 1) (by omega) c hc
      · exact ⟨index % 26, Nat.mod_lt index (by decide), hc⟩

/-- **Every text of letters is a numeral.** -/
theorem exists_letters (w : List Char) (hne : w ≠ []) (hletters : ∀ c ∈ w, IsLetter c) :
    ∃ index, letters index = w := by
  induction w using List.reverseRecOn with
  | nil => exact absurd rfl hne
  | append_singleton w c ih =>
    obtain ⟨i, hi, rfl⟩ := hletters c (by simp)
    by_cases hw : w = []
    · refine ⟨i, ?_⟩
      rw [letters_lt hi, hw]
      rfl
    · obtain ⟨index, hindex⟩ := ih hw fun c' hc' => hletters c' (List.mem_append_left _ hc')
      have hquot : (26 * (index + 1) + i) / 26 - 1 = index := by omega
      have hrem : (26 * (index + 1) + i) % 26 = i := by omega
      refine ⟨26 * (index + 1) + i, ?_⟩
      rw [letters_ge (by omega), hquot, hrem, hindex]

/-! ## The search -/

/-- The loop of `assign_disk_targets` for one disk, in at most `fuel` rounds from `index` on. -/
def searchLoop (devPrefix : String) (used : List String) : ℕ → ℕ → Option String
  | 0, _ => none
  | fuel + 1, index =>
    let target := devPrefix ++ String.ofList (numeralLoop (index % 26) (index / 26) [])
    if target ∈ used then searchLoop devPrefix used fuel (index + 1) else some target

theorem searchLoop_succ (devPrefix : String) (used : List String) (fuel index : ℕ) :
    searchLoop devPrefix used (fuel + 1) index =
      if targetAt devPrefix index ∈ used then searchLoop devPrefix used fuel (index + 1)
      else some (targetAt devPrefix index) := by
  rw [searchLoop, numeralLoop_eq, List.append_nil]
  rfl

/-- From a place before the first free index, both forms of the search end there. -/
theorem search_eq {devPrefix : String} {used : List String} {first : ℕ}
    (hfree : targetAt devPrefix first ∉ used) (hused : ∀ i < first, targetAt devPrefix i ∈ used)
    (steps : ℕ) :
    ∀ index, index + steps = first →
      (∀ fuel, steps < fuel → searchLoop devPrefix used fuel index = some (targetAt devPrefix first)) ∧
      ∀ fuel, steps ≤ fuel → targetFrom devPrefix used fuel index = targetAt devPrefix first := by
  induction steps with
  | zero =>
    intro index hindex
    obtain rfl : index = first := by omega
    constructor
    · intro fuel hfuel
      obtain ⟨fuel, rfl⟩ : ∃ n, fuel = n + 1 := ⟨fuel - 1, by omega⟩
      rw [searchLoop_succ, if_neg hfree]
    · intro fuel _
      cases fuel with
      | zero => rfl
      | succ fuel =>
        rw [targetFrom]
        exact if_neg hfree
  | succ steps ih =>
    intro index hindex
    have hhere := hused index (by omega)
    obtain ⟨hloop, hfrom⟩ := ih (index + 1) (by omega)
    constructor
    · intro fuel hfuel
      obtain ⟨fuel, rfl⟩ : ∃ n, fuel = n + 1 := ⟨fuel - 1, by omega⟩
      rw [searchLoop_succ, if_pos hhere]
      exact hloop fuel (by omega)
    · intro fuel hfuel
      obtain ⟨fuel, rfl⟩ : ∃ n, fuel = n + 1 := ⟨fuel - 1, by omega⟩
      rw [targetFrom, if_pos hhere]
      exact hfrom fuel (by omega)

/-- **The search ends at the first free target**, at the latest after all the used ones. -/
theorem search_first (devPrefix : String) (used : List String) :
    ∃ first ≤ used.length, targetAt devPrefix first ∉ used ∧ (∀ i < first, targetAt devPrefix i ∈ used) ∧
      nextTarget devPrefix used = targetAt devPrefix first ∧
      ∀ fuel, used.length < fuel → searchLoop devPrefix used fuel 0 = some (targetAt devPrefix first) := by
  have hexists : ∃ i, i ≤ used.length ∧ targetAt devPrefix i ∉ used := by
    by_contra hnone
    refine nextTarget_notMem devPrefix used ?_
    have hall : ∀ i ≤ used.length, targetAt devPrefix i ∈ used := by
      intro i hi
      by_contra hi'
      exact hnone ⟨i, hi, hi'⟩
    have hmem : ∀ fuel index, index + fuel ≤ used.length → targetFrom devPrefix used fuel index ∈ used := by
      intro fuel
      induction fuel with
      | zero => exact fun index h => hall index (by omega)
      | succ fuel ih =>
        intro index h
        rw [targetFrom, if_pos (hall index (by omega))]
        exact ih (index + 1) (by omega)
    exact hmem used.length 0 (by omega)
  classical
  obtain ⟨hle, hfree⟩ := Nat.find_spec hexists
  have hused : ∀ i < Nat.find hexists, targetAt devPrefix i ∈ used := by
    intro i hi
    have hmin := Nat.find_min hexists hi
    by_contra hnot
    exact hmin ⟨by omega, hnot⟩
  obtain ⟨hloop, hfrom⟩ := search_eq hfree hused (Nat.find hexists) 0 (by omega)
  exact ⟨Nat.find hexists, hle, hfree, hused, hfrom used.length hle,
    fun fuel hfuel => hloop fuel (by omega)⟩

/-! ## Targets apart -/

/-- The targets that are not empty are distinct. -/
def Apart (targets : List String) : Prop := (targets.filter fun target => decide (target ≠ "")).Nodup

/-- The targets that are not empty are among the used ones. -/
def Used (targets used : List String) : Prop := ∀ target ∈ targets, target ≠ "" → target ∈ used

/-- The targets of a list in which some places get new ones. -/
def fill (pick : ℕ → Option String) (targets : List String) : List String :=
  targets.mapIdx fun n target => (pick n).getD target

section Lists

variable {targets used : List String}

theorem apart_iff : Apart targets ↔ targets.Pairwise fun a b => a ≠ "" → b ≠ "" → a ≠ b := by
  rw [Apart, List.Nodup, List.pairwise_filter]
  simp only [decide_eq_true_eq]

/-- One more target that is not used. -/
theorem Apart.concat (h : Apart targets) (hused : Used targets used) {target : String}
    (hnew : target ∉ used) : Apart (targets ++ [target]) := by
  rw [apart_iff] at h ⊢
  refine List.pairwise_append.mpr ⟨h, List.pairwise_singleton _ _, ?_⟩
  rintro a ha b hb ha' - rfl
  rw [List.mem_singleton.mp hb] at ha ha'
  exact hnew (hused _ ha ha')

theorem Used.concat (h : Used targets used) (target : String) : Used (targets ++ [target]) (target :: used) := by
  intro target' hmem hne
  rcases List.mem_append.mp hmem with hmem | hmem
  · exact List.mem_cons_of_mem _ (h target' hmem hne)
  · rw [List.mem_singleton.mp hmem]
    exact List.mem_cons_self

/-- A disk without a target. -/
theorem Apart.concat_empty (h : Apart targets) : Apart (targets ++ [""]) := by
  rw [Apart, List.filter_append]
  exact (List.append_nil _).symm ▸ h

theorem Used.concat_empty (h : Used targets used) : Used (targets ++ [""]) used := by
  intro target hmem hne
  rcases List.mem_append.mp hmem with hmem | hmem
  · exact h target hmem hne
  · exact absurd (List.mem_singleton.mp hmem) hne

/-- **Targets that are new and different keep the targets apart**, wherever they are put. -/
theorem Apart.filled (h : Apart targets) (hused : Used targets used) {pick : ℕ → Option String}
    (hdistinct : ∀ i j target, pick i = some target → pick j = some target → i = j)
    (hnew : ∀ i target, pick i = some target → target ∉ used) : Apart (fill pick targets) := by
  rw [apart_iff, List.pairwise_iff_getElem] at h ⊢
  intro i j hi hj hij
  rw [fill, List.length_mapIdx] at hi hj
  simp only [fill, List.getElem_mapIdx]
  cases hfirst : pick i with
  | none =>
    cases hsecond : pick j with
    | none => exact h i j hi hj hij
    | some b =>
      intro ha _ heq
      apply hnew j b hsecond
      rw [Option.getD_none, Option.getD_some] at heq
      rw [← heq]
      exact hused _ (List.getElem_mem hi) ha
  | some a =>
    cases hsecond : pick j with
    | none =>
      intro _ hb heq
      apply hnew i a hfirst
      rw [Option.getD_none, Option.getD_some] at heq
      rw [heq]
      exact hused _ (List.getElem_mem hj) hb
    | some b =>
      intro _ _ heq
      rw [Option.getD_some, Option.getD_some] at heq
      have hindex := hdistinct i j a hfirst (heq ▸ hsecond)
      omega

end Lists

/-! ## Queues -/

section Queues

/-- What `assign_disk_targets` keeps: the new targets are different, were not used and are used now. -/
structure Assigned (used : List String) (r : List (ℕ × String) × List String) : Prop where
  distinct : (r.1.map Prod.snd).Nodup
  unused : ∀ a ∈ r.1, a.2 ∉ used
  used : ∀ target, target ∈ r.2 ↔ target ∈ used ∨ target ∈ r.1.map Prod.snd

theorem assigned_assignDiskTargets (queue : List (String × ℕ)) (used : List String) :
    Assigned used (assignDiskTargets queue used) := by
  unfold assignDiskTargets
  refine List.foldlRecOn queue _ (motive := Assigned used) ⟨List.nodup_nil, by simp, by simp⟩ ?_
  intro r hr q _
  have hfree := nextTarget_notMem q.1 r.2
  rw [hr.used, not_or] at hfree
  refine ⟨?_, ?_, ?_⟩
  · rw [List.map_append, List.nodup_append]
    refine ⟨hr.distinct, List.nodup_singleton _, ?_⟩
    rintro a ha b hb rfl
    rw [List.mem_singleton.mp hb] at ha
    exact hfree.2 ha
  · intro a ha
    rcases List.mem_append.mp ha with ha | ha
    · exact hr.unused a ha
    · rw [List.mem_singleton.mp ha]
      exact hfree.1
  · intro target
    rw [List.mem_cons, hr.used, List.map_append, List.mem_append]
    change _ ↔ target ∈ used ∨ target ∈ r.1.map Prod.snd ∨ target ∈ [nextTarget q.1 r.2]
    rw [List.mem_singleton]
    tauto

/-- Two queues after each other. -/
theorem Assigned.append {used : List String} {r r' : List (ℕ × String) × List String}
    (h : Assigned used r) (h' : Assigned r.2 r') : Assigned used (r.1 ++ r'.1, r'.2) := by
  refine ⟨?_, ?_, ?_⟩
  · rw [List.map_append, List.nodup_append]
    refine ⟨h.distinct, h'.distinct, ?_⟩
    rintro a ha b hb rfl
    obtain ⟨e, he, rfl⟩ := List.mem_map.mp hb
    exact h'.unused e he ((h.used _).mpr (Or.inr ha))
  · intro a ha
    rcases List.mem_append.mp ha with ha | ha
    · exact h.unused a ha
    · exact fun hmem => h'.unused a ha ((h.used _).mpr (Or.inl hmem))
  · intro target
    rw [h'.used, h.used, List.map_append, List.mem_append]
    tauto

theorem mem_of_lookup {assigned : List (ℕ × String)} {n : ℕ} {target : String}
    (h : assigned.lookup n = some target) : (n, target) ∈ assigned := by
  obtain ⟨l₁, l₂, rfl, -⟩ := List.lookup_eq_some_iff.mp h
  exact List.mem_append_right _ List.mem_cons_self

/-- The targets of the queues, and that of one more place, keep the targets apart. -/
theorem Apart.assigned {targets used : List String} {r : List (ℕ × String) × List String}
    (h : Apart targets) (hused : Used targets used) (hr : Assigned used r) {pick : ℕ → Option String}
    (hpick : ∀ i target, pick i = some target → (i, target) ∈ r.1) : Apart (fill pick targets) := by
  refine h.filled hused ?_ ?_
  · intro i j target hi hj
    exact congrArg Prod.fst (List.inj_on_of_nodup_map hr.distinct (hpick i target hi) (hpick j target hj) rfl)
  · intro i target hi
    exact hr.unused (i, target) (hpick i target hi)

theorem target_setTargets (assigned : List (ℕ × String)) (disks : List Disk) :
    (setTargets assigned disks).map Disk.target = fill (fun n => assigned.lookup n) (disks.map Disk.target) := by
  refine List.ext_getElem (by simp [setTargets, fill]) ?_
  intro i h₁ h₂
  simp only [setTargets, fill, List.getElem_map, List.getElem_mapIdx]
  cases assigned.lookup i with
  | none => rfl
  | some target => rfl

/-- A last place that gets its target from a part of what is assigned. -/
theorem fill_concat (assigned part : List (ℕ × String)) (targets : List String) (target : String) :
    fill (fun n => assigned.lookup n) targets ++ [(part.lookup targets.length).getD target] =
      fill (fun n => if n = targets.length then part.lookup n else assigned.lookup n)
        (targets ++ [target]) := by
  have hsame : fill (fun n => if n = targets.length then part.lookup n else assigned.lookup n) targets =
      fill (fun n => assigned.lookup n) targets := by
    refine List.ext_getElem (by simp [fill]) ?_
    intro i h₁ h₂
    rw [fill, List.length_mapIdx] at h₁
    simp only [fill, List.getElem_mapIdx]
    rw [if_neg (Nat.ne_of_lt h₁)]
  rw [← hsame, fill, fill, List.mapIdx_concat, if_pos rfl]

/-- A used target more, that is none of the new ones. -/
theorem Assigned.cons {used : List String} {r : List (ℕ × String) × List String} (h : Assigned used r)
    {target : String} (hnew : target ∉ r.2) : Assigned (target :: used) (r.1, target :: r.2) := by
  refine ⟨h.distinct, ?_, ?_⟩
  · intro a ha hmem
    rcases List.mem_cons.mp hmem with heq | hmem
    · exact hnew ((h.used target).mpr (Or.inr (List.mem_map.mpr ⟨a, ha, heq⟩)))
    · exact h.unused a ha hmem
  · intro t
    rw [List.mem_cons, List.mem_cons, h.used, or_assoc]

/-! ### The first free names -/

/-- The first name of the prefix that is not used. -/
def FirstFree (devPrefix : String) (used : List String) (target : String) : Prop :=
  ∃ first, target = targetAt devPrefix first ∧ targetAt devPrefix first ∉ used ∧
    ∀ i < first, targetAt devPrefix i ∈ used

/-- Each disk of the queue gets the first free name of its prefix, one after the other. -/
def FirstFrees : List (String × ℕ) → List String → List (ℕ × String) → Prop
  | [], _, assigned => assigned = []
  | q :: queue, used, assigned => ∃ target rest, assigned = (q.2, target) :: rest ∧
      FirstFree q.1 used target ∧ FirstFrees queue (target :: used) rest

theorem firstFree_nextTarget (devPrefix : String) (used : List String) :
    FirstFree devPrefix used (nextTarget devPrefix used) := by
  obtain ⟨first, -, hfree, hused, hnext, -⟩ := search_first devPrefix used
  exact ⟨first, hnext, hfree, hused⟩

theorem assignDiskTargets_cons (q : String × ℕ) (queue : List (String × ℕ)) (used : List String) :
    assignDiskTargets (q :: queue) used =
      ((q.2, nextTarget q.1 used) :: (assignDiskTargets queue (nextTarget q.1 used :: used)).1,
        (assignDiskTargets queue (nextTarget q.1 used :: used)).2) := by
  have hfold : ∀ (queue : List (String × ℕ)) (r : List (ℕ × String) × List String)
      (front : List (ℕ × String)),
      queue.foldl (fun r q => (r.1 ++ [(q.2, nextTarget q.1 r.2)], nextTarget q.1 r.2 :: r.2))
        (front ++ r.1, r.2) =
      (front ++ (queue.foldl (fun r q =>
        (r.1 ++ [(q.2, nextTarget q.1 r.2)], nextTarget q.1 r.2 :: r.2)) r).1,
        (queue.foldl (fun r q =>
        (r.1 ++ [(q.2, nextTarget q.1 r.2)], nextTarget q.1 r.2 :: r.2)) r).2) := by
    intro queue
    induction queue with
    | nil => exact fun _ _ => rfl
    | cons q queue ih =>
      intro r front
      rw [List.foldl_cons, List.foldl_cons, ← ih, List.append_assoc]
  exact hfold queue ([], nextTarget q.1 used :: used) [(q.2, nextTarget q.1 used)]

/-- **`assign_disk_targets`** gives each disk of its queue the first free name. -/
theorem firstFrees_assignDiskTargets (queue : List (String × ℕ)) (used : List String) :
    FirstFrees queue used (assignDiskTargets queue used).1 := by
  induction queue generalizing used with
  | nil => rfl
  | cons q queue ih =>
    rw [assignDiskTargets_cons]
    exact ⟨_, _, rfl, firstFree_nextTarget q.1 used, ih _⟩

/-- The numbers of the disks that get a name. -/
theorem FirstFrees.map_fst {queue : List (String × ℕ)} {used : List String}
    {assigned : List (ℕ × String)} (h : FirstFrees queue used assigned) :
    assigned.map Prod.fst = queue.map Prod.snd := by
  induction queue generalizing used assigned with
  | nil => rw [show assigned = [] from h]; rfl
  | cons q queue ih =>
    obtain ⟨target, rest, rfl, -, hrest⟩ := h
    rw [List.map_cons, List.map_cons, ih hrest]

theorem FirstFrees.unused {queue : List (String × ℕ)} {used : List String}
    {assigned : List (ℕ × String)} (h : FirstFrees queue used assigned) : ∀ a ∈ assigned, a.2 ∉ used := by
  induction queue generalizing used assigned with
  | nil =>
    rw [show assigned = [] from h]
    exact fun a ha => absurd ha List.not_mem_nil
  | cons q queue ih =>
    obtain ⟨target, rest, rfl, ⟨first, rfl, hfree, -⟩, hrest⟩ := h
    intro a ha
    rcases List.mem_cons.mp ha with rfl | ha
    · exact hfree
    · exact fun hmem => ih hrest a ha (List.mem_cons_of_mem _ hmem)

theorem FirstFrees.ne_empty {queue : List (String × ℕ)} {used : List String}
    {assigned : List (ℕ × String)} (h : FirstFrees queue used assigned) : ∀ a ∈ assigned, a.2 ≠ "" := by
  induction queue generalizing used assigned with
  | nil =>
    rw [show assigned = [] from h]
    exact fun a ha => absurd ha List.not_mem_nil
  | cons q queue ih =>
    obtain ⟨target, rest, rfl, ⟨first, rfl, -⟩, hrest⟩ := h
    intro a ha
    rcases List.mem_cons.mp ha with rfl | ha
    · intro hempty
      have hletters := congrArg String.toList hempty
      rw [targetAt, String.toList_append, String.toList_ofList] at hletters
      exact letters_ne_nil first (List.append_eq_nil_iff.mp hletters).2
    · exact ih hrest a ha

/-- More used names that no disk of the queue gets change nothing. -/
theorem FirstFrees.mono {queue : List (String × ℕ)} {used used' : List String}
    {assigned : List (ℕ × String)} (h : FirstFrees queue used assigned) (hsub : used ⊆ used')
    (hnew : ∀ a ∈ assigned, a.2 ∉ used') : FirstFrees queue used' assigned := by
  induction queue generalizing used used' assigned with
  | nil => exact h
  | cons q queue ih =>
    obtain ⟨target, rest, rfl, ⟨first, rfl, -, hbefore⟩, hrest⟩ := h
    have hfree := hnew _ List.mem_cons_self
    refine ⟨_, rest, rfl, ⟨first, rfl, hfree, fun i hi => hsub (hbefore i hi)⟩, ?_⟩
    refine ih hrest (List.cons_subset_cons _ hsub) fun a ha hmem => ?_
    rcases List.mem_cons.mp hmem with heq | hmem
    · exact hrest.unused a ha (heq ▸ List.mem_cons_self)
    · exact hnew a (List.mem_cons_of_mem _ ha) hmem

/-- A queue after another one. -/
theorem FirstFrees.append {queue queue' : List (String × ℕ)} {used used' : List String}
    {assigned assigned' : List (ℕ × String)} (h : FirstFrees queue used assigned)
    (h' : FirstFrees queue' used' assigned')
    (hused : ∀ t, t ∈ used' ↔ t ∈ used ∨ t ∈ assigned.map Prod.snd) :
    FirstFrees (queue ++ queue') used (assigned ++ assigned') := by
  induction queue generalizing used assigned with
  | nil =>
    obtain rfl : assigned = [] := h
    have hsame : ∀ t, t ∈ used' ↔ t ∈ used := fun t => (hused t).trans (or_iff_left List.not_mem_nil)
    exact h'.mono (fun t ht => (hsame t).mp ht) fun a ha hmem => h'.unused a ha ((hsame _).mpr hmem)
  | cons q queue ih =>
    obtain ⟨target, rest, rfl, hfirst, hrest⟩ := h
    refine ⟨target, rest ++ assigned', rfl, hfirst, ih hrest fun t => ?_⟩
    rw [hused, List.map_cons, List.mem_cons, List.mem_cons]
    tauto

end Queues

/-! ## `get_images` -/

section GetImages

variable {conf : Conf} {isQ35 : Bool} {l l' : Loop} {a : Acquired}

/-- The targets that are given are apart, and they are used. -/
def TargetsKept (l : Loop) : Prop :=
  Apart (l.disks.map Disk.target) ∧ Used (l.disks.map Disk.target) l.usedTargets

theorem TargetsKept.congr (h : TargetsKept l) (hdisks : l'.disks = l.disks)
    (hused : l'.usedTargets = l.usedTargets) : TargetsKept l' := by
  rw [TargetsKept, hdisks, hused]
  exact h

theorem targetsKept_count {devPrefix : String} (h : TargetsKept l) : TargetsKept (l.count devPrefix) :=
  h.congr rfl rfl

theorem targetsKept_queue {imgType : ImageType} {devPrefix : String} {n : ℕ} (h : TargetsKept l) :
    TargetsKept (l.queue imgType devPrefix n) := by
  cases imgType with
  | os =>
    rw [Loop.queue]
    split
    · exact h.congr rfl rfl
    · exact h.congr rfl rfl
  | _ => exact h.congr rfl rfl

theorem TargetsKept.addDisk (h : TargetsKept l) (hadd : addDisk isQ35 l a = .ok l') : TargetsKept l' := by
  have hdisks : (l.add a).disks.map Disk.target = l.disks.map Disk.target ++ [a.disk.target] := by
    rw [Loop.add, List.map_append]
    rfl
  rw [VirtualMachineDisks.addDisk] at hadd
  generalize (if a.imgType = .cdrom ∧ a.disk.devPrefix = "" then cdromDevPrefix isQ35
    else a.disk.devPrefix) = devPrefix at hadd
  dsimp only at hadd
  split_ifs at hadd with _ _ hgiven hdup
  · obtain rfl := Except.ok.inj hadd
    refine targetsKept_count ⟨?_, ?_⟩
    · dsimp only
      rw [hdisks]
      exact h.1.concat h.2 hdup
    · dsimp only
      rw [hdisks]
      exact h.2.concat _
  · obtain rfl := Except.ok.inj hadd
    have hempty : a.disk.target = "" := not_not.mp hgiven
    refine targetsKept_count (targetsKept_queue ⟨?_, ?_⟩)
    · rw [hdisks, hempty]
      exact h.1.concat_empty
    · rw [hdisks, hempty]
      exact h.2.concat_empty

theorem TargetsKept.getDisks {vmId uid : ℤ} (ds : List Disk) (h : TargetsKept l)
    (hget : getDisks conf vmId uid isQ35 l ds = .ok l') : TargetsKept l' := by
  induction ds generalizing l with
  | nil =>
    obtain rfl := Except.ok.inj hget
    exact h
  | cons d ds ih =>
    rw [VirtualMachineDisks.getDisks] at hget
    split at hget
    · rename_i l₁ hdisk
      refine ih ?_ hget
      unfold getDisk at hdisk
      split at hdisk
      · cases hdisk
      · exact (h.congr rfl rfl : TargetsKept (l.acquired _ _)).addDisk hdisk
    · cases hget

/-- The targets of the disks, and the one of the context disk after them. -/
def targetsOf (vm : Vm) : List String := vm.disks.map Disk.target ++ (vm.context.map Context.target).toList

/-- The three queues after each other, with the given target of the context disk before the second. -/
theorem TargetsKept.assignTargets (h : TargetsKept l) {context : Option Context} {vm : Vm}
    (hassign : assignTargets isQ35 l context = .ok vm) : Apart (targetsOf vm) := by
  rw [VirtualMachineDisks.assignTargets] at hassign
  dsimp only at hassign
  have hos := assigned_assignDiskTargets l.osDisk l.usedTargets
  by_cases hhd : 4 < l.hdDisks ∧ isQ35 = false
  · rw [if_pos hhd] at hassign
    cases hassign
  by_cases hsd : 256 < l.sdDisks
  · rw [if_neg hhd, if_pos hsd] at hassign
    cases hassign
  rw [if_neg hhd, if_neg hsd] at hassign
  cases context with
  | none =>
    obtain rfl := Except.ok.inj hassign
    have hcdroms := hos.append (assigned_assignDiskTargets l.cdromDisks _)
    have hall := hcdroms.append (assigned_assignDiskTargets l.datablockDisks _)
    rw [targetsOf, Option.map_none, Option.toList_none, List.append_nil, target_setTargets]
    exact h.1.assigned h.2 hall fun i target hi => mem_of_lookup hi
  | some ctx =>
    dsimp only at hassign
    by_cases hdup : ctx.target ≠ "" ∧ ctx.target ∈ (assignDiskTargets l.osDisk l.usedTargets).2
    · rw [if_pos hdup] at hassign
      cases hassign
    rw [if_neg hdup] at hassign
    obtain rfl := Except.ok.inj hassign
    -- All the new targets, and those of the queue of the context disk among them.
    have hfinal : ∀ {used : List String} {cdroms : List (ℕ × String) × List String},
        Apart (l.disks.map Disk.target ++ [ctx.target]) →
        Used (l.disks.map Disk.target ++ [ctx.target]) used →
        Assigned used ((assignDiskTargets l.osDisk l.usedTargets).1 ++ cdroms.1, cdroms.2) →
        Apart (targetsOf
          ⟨setTargets ((assignDiskTargets l.osDisk l.usedTargets).1 ++ cdroms.1 ++
            (assignDiskTargets l.datablockDisks cdroms.2).1) l.disks,
            some ⟨l.disks.length, (cdroms.1.lookup l.disks.length).getD ctx.target, ctx.devPrefix⟩⟩) := by
      intro used cdroms hapart hused hcdroms
      have hall := hcdroms.append (assigned_assignDiskTargets l.datablockDisks cdroms.2)
      have hlast := fill_concat ((assignDiskTargets l.osDisk l.usedTargets).1 ++ cdroms.1 ++
        (assignDiskTargets l.datablockDisks cdroms.2).1) cdroms.1 (l.disks.map Disk.target) ctx.target
      rw [List.length_map] at hlast
      rw [targetsOf, Option.map_some, Option.toList_some, target_setTargets, hlast]
      refine hapart.assigned hused hall ?_
      intro i target hi
      split_ifs at hi
      · exact List.mem_append_left _ (List.mem_append_right _ (mem_of_lookup hi))
      · exact mem_of_lookup hi
    by_cases hgiven : ctx.target ≠ ""
    · have hfree : ctx.target ∉ (assignDiskTargets l.osDisk l.usedTargets).2 := fun hmem => hdup ⟨hgiven, hmem⟩
      have hunused : ctx.target ∉ l.usedTargets := fun hmem => hfree ((hos.used _).mpr (Or.inl hmem))
      rw [if_pos hgiven]
      exact hfinal (h.1.concat h.2 hunused) (h.2.concat _)
        ((hos.cons hfree).append (assigned_assignDiskTargets l.cdromDisks _))
    · rw [if_neg hgiven]
      rw [not_not] at hgiven
      refine hfinal ?_ ?_ (hos.append (assigned_assignDiskTargets _ _))
      · rw [hgiven]
        exact h.1.concat_empty
      · rw [hgiven]
        exact h.2.concat_empty

/-! ### Which disks wait for a target -/

/-- The context disk, if it has no target. -/
def waitingContext (isQ35 : Bool) (n : ℕ) : Option Context → List (String × ℕ)
  | some ctx =>
    if ctx.target ≠ "" then []
    else [(if ctx.devPrefix = "" then cdromDevPrefix isQ35 else ctx.devPrefix, n)]
  | none => []

/-- The disks without target, in the order of the three queues; the context disk is the last of the second. -/
def queued (isQ35 : Bool) (l : Loop) (context : Option Context) : List (String × ℕ) :=
  l.osDisk ++ (l.cdromDisks ++ waitingContext isQ35 l.disks.length context) ++ l.datablockDisks

/-- What the loop knows of the targets: a disk without one waits for it, if it is not a file system. -/
structure Waiting (images : Images) (l : Loop) : Prop where
  types : ∀ iid, (l.images iid).map (fun p => p.image.type) = (images iid).map fun p => p.image.type
  given : ∀ t ∈ l.usedTargets, t ≠ "" ∧ t ∈ l.disks.map Disk.target
  numbers : ((l.osDisk ++ l.cdromDisks ++ l.datablockDisks).map Prod.snd).Nodup
  before : ∀ q ∈ l.osDisk ++ l.cdromDisks ++ l.datablockDisks, q.2 < l.disks.length
  waits : ∀ n d, l.disks[n]? = some d → d.target = "" →
    n ∈ (l.osDisk ++ l.cdromDisks ++ l.datablockDisks).map Prod.snd ∨
      ∃ iid ∈ d.imageId, ∃ p, images iid = some p ∧ p.image.type = .filesystem

/-- Images of the same types. -/
theorem acquire_types {images images' : Images} {v iid : ℤ} {attach : Bool} {p : PoolImage}
    (h : images.acquire v iid attach = some (images', p)) :
    (∀ j, (images' j).map (fun p => p.image.type) = (images j).map fun p => p.image.type) ∧
      (images iid).map (fun p => p.image.type) = some p.image.type ∧ p.image.type.isDisk = true := by
  unfold Images.acquire at h
  split at h
  · cases h
  · rename_i q hq
    split at h
    · cases h
    · rename_i img himg
      obtain ⟨hdisk, -, htype⟩ := acquireImage_cases himg
      cases h
      refine ⟨fun j => ?_, ?_, htype.symm ▸ hdisk⟩
      · by_cases hj : j = iid
        · rw [hj, Function.update_self, hq, Option.map_some, Option.map_some, htype]
        · rw [Function.update_of_ne hj]
      · rw [hq, Option.map_some, htype]

theorem acquireDisk_types {images images' : Images} {v n uid : ℤ} {d : Disk} {attach : Bool}
    (h : acquireDisk conf images v d n uid attach = (images', .ok a)) :
    (∀ j, (images' j).map (fun p => p.image.type) = (images j).map fun p => p.image.type) ∧
      a.imgType.isDisk = true ∧ (a.imgType = .filesystem →
        ∃ iid ∈ a.disk.imageId, (images iid).map (fun p => p.image.type) = some .filesystem) := by
  rcases acquireDisk_cases h with ⟨iid, -, h⟩ | ⟨rfl, herror | ⟨-, -, h⟩⟩
  · unfold acquireDiskImage at h
    split at h
    · cases h
    · rename_i images₁ p hacquire
      obtain ⟨htypes, htype, hdisk⟩ := acquire_types hacquire
      split at h
      · cases (Prod.mk.inj h).2
      · split at h
        · cases (Prod.mk.inj h).2
        · obtain ⟨rfl, ha⟩ := Prod.mk.inj h
          obtain rfl := Except.ok.inj ha
          exact ⟨htypes, hdisk, fun hfs => ⟨iid, rfl, htype.trans (congrArg some hfs)⟩⟩
  · cases herror
  · unfold acquireVolatile at h
    split at h
    · cases h
    · split at h
      · cases h
      · cases h
        exact ⟨fun _ => rfl, rfl, fun hfs => by cases hfs⟩

theorem getElem?_concat {ds : List Disk} {d d' : Disk} {n : ℕ} (h : (ds ++ [d])[n]? = some d') :
    ds[n]? = some d' ∨ (n = ds.length ∧ d' = d) := by
  rw [List.getElem?_append] at h
  split at h
  · exact Or.inl h
  · obtain ⟨hn, hd⟩ := List.getElem?_eq_some_iff.mp h
    rw [List.length_singleton] at hn
    rw [List.getElem_singleton] at hd
    exact Or.inr ⟨by omega, hd.symm⟩

/-- A disk that is given a target, or has none and does not wait for one. -/
theorem Waiting.add {images : Images} (h : Waiting images l) {used : List String}
    (hgiven : ∀ t ∈ used, t ∈ l.usedTargets ∨ (t ≠ "" ∧ t = a.disk.target))
    (hdisk : a.disk.target = "" →
      ∃ iid ∈ a.disk.imageId, ∃ p, images iid = some p ∧ p.image.type = .filesystem) :
    Waiting images { l.add a with usedTargets := used } := by
  refine ⟨h.types, fun t ht => ?_, h.numbers, fun q hq => ?_, fun n d hd htarget => ?_⟩
  · show t ≠ "" ∧ t ∈ (l.disks ++ [a.disk]).map Disk.target
    rw [List.map_append, List.mem_append]
    rcases hgiven t ht with ht | ⟨hne, heq⟩
    · exact ⟨(h.given t ht).1, Or.inl (h.given t ht).2⟩
    · exact ⟨hne, Or.inr (List.mem_singleton.mpr heq)⟩
  · show q.2 < (l.disks ++ [a.disk]).length
    rw [List.length_append]
    exact Nat.lt_add_right _ (h.before q hq)
  · rcases getElem?_concat hd with hd | ⟨-, rfl⟩
    · exact h.waits n d hd htarget
    · exact Or.inr (hdisk htarget)

/-- One more disk waits. -/
theorem perm_queue (l : Loop) {imgType : ImageType} (hdisk : imgType.isDisk = true)
    (hfs : imgType ≠ .filesystem) (devPrefix : String) (n : ℕ) :
    ((l.queue imgType devPrefix n).osDisk ++ (l.queue imgType devPrefix n).cdromDisks ++
      (l.queue imgType devPrefix n).datablockDisks).Perm
        ((l.osDisk ++ l.cdromDisks ++ l.datablockDisks) ++ [(devPrefix, n)]) := by
  have hlast : (l.osDisk ++ l.cdromDisks ++ (l.datablockDisks ++ [(devPrefix, n)])).Perm
      ((l.osDisk ++ l.cdromDisks ++ l.datablockDisks) ++ [(devPrefix, n)]) := by
    rw [List.append_assoc (l.osDisk ++ l.cdromDisks)]
  cases imgType with
  | os =>
    rw [Loop.queue]
    split
    · rename_i hempty
      rw [hempty, List.nil_append, List.append_assoc]
      exact List.perm_append_comm
    · exact hlast
  | cdrom =>
    show (l.osDisk ++ (l.cdromDisks ++ [(devPrefix, n)]) ++ l.datablockDisks).Perm _
    rw [List.append_assoc, List.append_assoc l.cdromDisks, List.append_assoc l.osDisk,
      List.append_assoc l.osDisk, List.append_assoc l.cdromDisks]
    exact (List.perm_append_comm.append_left _).append_left _
  | datablock => exact hlast
  | filesystem => exact absurd rfl hfs
  | _ => exact absurd hdisk Bool.false_ne_true

theorem queue_frame (l : Loop) (imgType : ImageType) (devPrefix : String) (n : ℕ) :
    (l.queue imgType devPrefix n).images = l.images ∧ (l.queue imgType devPrefix n).disks = l.disks ∧
      (l.queue imgType devPrefix n).usedTargets = l.usedTargets := by
  unfold Loop.queue
  split
  · split <;> exact ⟨rfl, rfl, rfl⟩
  · exact ⟨rfl, rfl, rfl⟩
  · exact ⟨rfl, rfl, rfl⟩
  · exact ⟨rfl, rfl, rfl⟩

/-- A disk that waits for its target. -/
theorem Waiting.queue {images : Images} (h : Waiting images l) (hdisk : a.imgType.isDisk = true)
    (hfs : a.imgType ≠ .filesystem) (devPrefix : String) :
    Waiting images ((l.add a).queue a.imgType devPrefix l.disks.length) := by
  obtain ⟨himages, hdisks, hused⟩ := queue_frame (l.add a) a.imgType devPrefix l.disks.length
  have hperm := perm_queue (l.add a) hdisk hfs devPrefix l.disks.length
  have hdisks' : ((l.add a).queue a.imgType devPrefix l.disks.length).disks = l.disks ++ [a.disk] := hdisks
  refine ⟨?_, ?_, ?_, ?_, ?_⟩
  · rw [himages]
    exact h.types
  · rw [hused, hdisks', List.map_append]
    exact fun t ht => ⟨(h.given t ht).1, List.mem_append_left _ (h.given t ht).2⟩
  · refine (hperm.map Prod.snd).nodup_iff.mpr ?_
    rw [List.map_append, List.nodup_append]
    refine ⟨h.numbers, List.nodup_singleton _, ?_⟩
    rintro n hn m hm rfl
    obtain ⟨q, hq, rfl⟩ := List.mem_map.mp hn
    exact absurd (List.mem_singleton.mp hm) (ne_of_lt (h.before q hq))
  · intro q hq
    rw [hdisks', List.length_append, List.length_singleton]
    rcases List.mem_append.mp (hperm.mem_iff.mp hq) with hq | hq
    · exact Nat.lt_succ_of_lt (h.before q hq)
    · rw [List.mem_singleton.mp hq]
      exact Nat.lt_succ_self _
  · intro n d hd htarget
    rw [(hperm.map Prod.snd).mem_iff, List.map_append, List.mem_append]
    rw [hdisks'] at hd
    rcases getElem?_concat hd with hd | ⟨rfl, -⟩
    · exact (h.waits n d hd htarget).imp Or.inl id
    · exact Or.inl (Or.inr (List.mem_singleton_self _))

theorem Waiting.addDisk {images : Images} (h : Waiting images l) (hdisk : a.imgType.isDisk = true)
    (hfs : a.imgType = .filesystem →
      ∃ iid ∈ a.disk.imageId, ∃ p, images iid = some p ∧ p.image.type = .filesystem)
    (hadd : addDisk isQ35 l a = .ok l') : Waiting images l' := by
  rw [VirtualMachineDisks.addDisk] at hadd
  generalize (if a.imgType = .cdrom ∧ a.disk.devPrefix = "" then cdromDevPrefix isQ35
    else a.disk.devPrefix) = devPrefix at hadd
  dsimp only at hadd
  -- the counters of the prefixes play no role
  have hcount : ∀ {l : Loop} {devPrefix : String}, Waiting images l → Waiting images (l.count devPrefix) :=
    fun h => ⟨h.types, h.given, h.numbers, h.before, h.waits⟩
  split_ifs at hadd with _ _ hgiven hdup
  · obtain rfl := Except.ok.inj hadd
    refine hcount (h.add (fun t ht => ?_) fun hempty => absurd hempty hgiven)
    rcases List.mem_cons.mp ht with rfl | ht
    · exact Or.inr ⟨hgiven, rfl⟩
    · exact Or.inl ht
  · obtain rfl := Except.ok.inj hadd
    by_cases htype : a.imgType = .filesystem
    · have hsame : (l.add a).queue a.imgType devPrefix l.disks.length =
          { l.add a with usedTargets := l.usedTargets } := by
        rw [htype]
        rfl
      rw [hsame]
      exact hcount (h.add (fun t ht => Or.inl ht) fun _ => hfs htype)
    · exact hcount (h.queue hdisk htype devPrefix)

theorem Waiting.getDisks {images : Images} {vmId uid : ℤ} (ds : List Disk) (h : Waiting images l)
    (hget : getDisks conf vmId uid isQ35 l ds = .ok l') : Waiting images l' := by
  induction ds generalizing l with
  | nil =>
    obtain rfl := Except.ok.inj hget
    exact h
  | cons d ds ih =>
    rw [VirtualMachineDisks.getDisks] at hget
    split at hget
    · rename_i l₁ hdisk
      refine ih ?_ hget
      unfold getDisk at hdisk
      split at hdisk
      · cases hdisk
      · rename_i images₁ a hacquire
        obtain ⟨htypes, hisDisk, hfs⟩ := acquireDisk_types hacquire
        have hstart : Waiting images (l.acquired images₁ a) :=
          ⟨fun iid => (htypes iid).trans (h.types iid), h.given, h.numbers, h.before, h.waits⟩
        refine hstart.addDisk hisDisk (fun htype => ?_) hdisk
        obtain ⟨iid, hiid, hmap⟩ := hfs htype
        rw [h.types iid, Option.map_eq_some_iff] at hmap
        exact ⟨iid, hiid, hmap⟩
    · cases hget

theorem lookup_of_mem {assigned : List (ℕ × String)} (hnodup : (assigned.map Prod.fst).Nodup)
    {a : ℕ × String} (ha : a ∈ assigned) : assigned.lookup a.1 = some a.2 := by
  obtain ⟨front, rest, rfl⟩ := List.append_of_mem ha
  refine List.lookup_eq_some_iff.mpr ⟨front, rest, rfl, fun b hb => bne_iff_ne.mpr fun heq => ?_⟩
  rw [List.map_append, List.nodup_append] at hnodup
  exact hnodup.2.2 b.1 (List.mem_map_of_mem hb) a.1 (List.mem_map_of_mem List.mem_cons_self) heq.symm

/-- The same used names. -/
theorem FirstFrees.congr {queue : List (String × ℕ)} {used used' : List String}
    {assigned : List (ℕ × String)} (h : FirstFrees queue used assigned)
    (hsame : ∀ t, t ∈ used ↔ t ∈ used') : FirstFrees queue used' assigned :=
  h.mono (fun t => (hsame t).mp) fun a ha hmem => h.unused a ha ((hsame _).mpr hmem)

theorem getElem?_fill {pick : ℕ → Option String} {targets : List String} {n : ℕ} {target : String}
    (hn : n < targets.length) (hpick : pick n = some target) : (fill pick targets)[n]? = some target := by
  rw [fill, List.getElem?_mapIdx, List.getElem?_eq_getElem hn, Option.map_some, hpick, Option.getD_some]

/-- The three queues one after the other. -/
theorem firstFrees_queues {os cdroms datablocks : List (String × ℕ)} {used used' : List String}
    {assigned : List (ℕ × String)} (hos : FirstFrees os used assigned)
    (hused : ∀ t, t ∈ used' ↔ t ∈ used ∨ t ∈ assigned.map Prod.snd) :
    FirstFrees (os ++ cdroms ++ datablocks) used
      (assigned ++ (assignDiskTargets cdroms used').1 ++
        (assignDiskTargets datablocks (assignDiskTargets cdroms used').2).1) := by
  have hcdroms := hos.append (firstFrees_assignDiskTargets cdroms used') hused
  refine hcdroms.append (firstFrees_assignDiskTargets datablocks _) fun t => ?_
  rw [(assigned_assignDiskTargets cdroms used').used, hused, List.map_append, List.mem_append, or_assoc]

/-- The disks that wait have different numbers; the context disk has the one after the others. -/
theorem Waiting.numbers_queued {images : Images} (h : Waiting images l) (isQ35 : Bool)
    (context : Option Context) :
    ((queued isQ35 l context).map Prod.snd).Nodup ∧
      ∀ q ∈ queued isQ35 l context, q.2 < l.disks.length ∨
        (q ∈ waitingContext isQ35 l.disks.length context ∧ q.2 = l.disks.length) := by
  have hwaiting : ((waitingContext isQ35 l.disks.length context).map Prod.snd).Nodup ∧
      ∀ q ∈ waitingContext isQ35 l.disks.length context, q.2 = l.disks.length := by
    cases context with
    | none => exact ⟨List.nodup_nil, fun q hq => absurd hq List.not_mem_nil⟩
    | some ctx =>
      rw [waitingContext]
      by_cases hctx : ctx.target ≠ ""
      · rw [if_pos hctx]
        exact ⟨List.nodup_nil, fun q hq => absurd hq List.not_mem_nil⟩
      · rw [if_neg hctx]
        exact ⟨List.nodup_singleton _, fun q hq => by rw [List.mem_singleton.mp hq]⟩
  have hperm : (queued isQ35 l context).Perm (waitingContext isQ35 l.disks.length context ++
      (l.osDisk ++ l.cdromDisks ++ l.datablockDisks)) := by
    rw [queued, ← List.append_assoc, List.append_assoc (l.osDisk ++ l.cdromDisks)]
    exact List.perm_append_comm_assoc _ _ _
  constructor
  · refine (hperm.map Prod.snd).nodup_iff.mpr ?_
    rw [List.map_append, List.nodup_append]
    refine ⟨hwaiting.1, h.numbers, ?_⟩
    rintro n hn m hm rfl
    obtain ⟨q, hq, rfl⟩ := List.mem_map.mp hn
    obtain ⟨q', hq', heq⟩ := List.mem_map.mp hm
    have hlt := h.before q' hq'
    rw [heq, hwaiting.2 q hq] at hlt
    exact absurd hlt (lt_irrefl _)
  · intro q hq
    rcases List.mem_append.mp (hperm.mem_iff.mp hq) with hq | hq
    · exact Or.inr ⟨hq, hwaiting.2 q hq⟩
    · exact Or.inl (h.before q hq)

/-- The numbers of the disks that get a target. -/
theorem Waiting.numbers_assigned {images : Images} (h : Waiting images l) {context : Option Context}
    {used : List String} {assigned : List (ℕ × String)}
    (hfirst : FirstFrees (queued isQ35 l context) used assigned) :
    (assigned.map Prod.fst).Nodup ∧ ∀ a ∈ assigned, a.1 < l.disks.length ∨
      (∃ q ∈ waitingContext isQ35 l.disks.length context, q.2 = a.1) ∧ a.1 = l.disks.length := by
  obtain ⟨hnodup, hbound⟩ := h.numbers_queued isQ35 context
  rw [hfirst.map_fst]
  refine ⟨hnodup, fun a ha => ?_⟩
  have hmem := List.mem_map_of_mem (f := Prod.fst) ha
  rw [hfirst.map_fst] at hmem
  obtain ⟨q, hq, heq⟩ := List.mem_map.mp hmem
  rw [← heq]
  exact (hbound q hq).imp id fun hq => ⟨⟨q, hq.1, rfl⟩, hq.2⟩

/-- **After the loop** the disks that wait get the first free names. -/
theorem Waiting.assignTargets {images : Images} (h : Waiting images l) {context : Option Context}
    {vm : Vm} (hkept : TargetsKept l) (hassign : assignTargets isQ35 l context = .ok vm) :
    ∃ assigned, FirstFrees (queued isQ35 l context) (Vm.usedTargets ⟨l.disks, context⟩) assigned ∧
      (∀ a ∈ assigned, (targetsOf vm)[a.1]? = some a.2) ∧ vm.disks = setTargets assigned l.disks := by
  have hused : ∀ t, t ∈ l.usedTargets ↔ t ≠ "" ∧ t ∈ l.disks.map Disk.target :=
    fun t => ⟨h.given t, fun ht => hkept.2 t ht.2 ht.1⟩
  have hos := firstFrees_assignDiskTargets l.osDisk l.usedTargets
  have hosAssigned := assigned_assignDiskTargets l.osDisk l.usedTargets
  rw [VirtualMachineDisks.assignTargets] at hassign
  dsimp only at hassign
  by_cases hhd : 4 < l.hdDisks ∧ isQ35 = false
  · rw [if_pos hhd] at hassign
    cases hassign
  by_cases hsd : 256 < l.sdDisks
  · rw [if_neg hhd, if_pos hsd] at hassign
    cases hassign
  rw [if_neg hhd, if_neg hsd] at hassign
  cases context with
  | none =>
    obtain rfl := Except.ok.inj hassign
    have hall : FirstFrees (queued isQ35 l none) l.usedTargets _ :=
      @firstFrees_queues l.osDisk (l.cdromDisks ++ []) l.datablockDisks _ _ _ hos hosAssigned.used
    rw [List.append_nil] at hall
    obtain ⟨hnodup, hbound⟩ := h.numbers_assigned hall
    refine ⟨_, hall.congr fun t => ?_, fun a ha => ?_, rfl⟩
    · rw [hused, Vm.usedTargets, List.mem_filter, and_comm, Option.map_none, Option.toList_none,
        List.append_nil, decide_eq_true_iff]
    · rw [targetsOf, Option.map_none, Option.toList_none, List.append_nil, target_setTargets]
      refine getElem?_fill ?_ (lookup_of_mem hnodup ha)
      rw [List.length_map]
      exact (hbound a ha).resolve_right fun hctx => hctx.1.elim fun q hq => List.not_mem_nil hq.1
  | some ctx =>
    dsimp only at hassign
    by_cases hdup : ctx.target ≠ "" ∧ ctx.target ∈ (assignDiskTargets l.osDisk l.usedTargets).2
    · rw [if_pos hdup] at hassign
      cases hassign
    rw [if_neg hdup] at hassign
    obtain rfl := Except.ok.inj hassign
    -- the targets are those of the queues, whatever the second queue is
    have hfinal : ∀ {used : List String} {cdroms : List (ℕ × String) × List String},
        FirstFrees (queued isQ35 l (some ctx)) used
          ((assignDiskTargets l.osDisk l.usedTargets).1 ++ cdroms.1 ++
            (assignDiskTargets l.datablockDisks cdroms.2).1) →
        (∀ t, t ∈ used ↔ t ∈ Vm.usedTargets ⟨l.disks, some ctx⟩) →
        (cdroms.1.map Prod.fst) =
          (l.cdromDisks ++ waitingContext isQ35 l.disks.length (some ctx)).map Prod.snd →
        ∃ assigned, FirstFrees (queued isQ35 l (some ctx)) (Vm.usedTargets ⟨l.disks, some ctx⟩) assigned ∧
          (∀ a ∈ assigned, (targetsOf ⟨setTargets ((assignDiskTargets l.osDisk l.usedTargets).1 ++ cdroms.1 ++
            (assignDiskTargets l.datablockDisks cdroms.2).1) l.disks,
            some ⟨l.disks.length, (cdroms.1.lookup l.disks.length).getD ctx.target,
              ctx.devPrefix⟩⟩)[a.1]? = some a.2) ∧
          setTargets ((assignDiskTargets l.osDisk l.usedTargets).1 ++ cdroms.1 ++
            (assignDiskTargets l.datablockDisks cdroms.2).1) l.disks = setTargets assigned l.disks := by
      intro used cdroms hall hsame hcdroms
      obtain ⟨hnodup, hbound⟩ := h.numbers_assigned hall
      refine ⟨_, hall.congr hsame, fun a ha => ?_, rfl⟩
      have hlast := fill_concat ((assignDiskTargets l.osDisk l.usedTargets).1 ++ cdroms.1 ++
        (assignDiskTargets l.datablockDisks cdroms.2).1) cdroms.1 (l.disks.map Disk.target) ctx.target
      rw [List.length_map] at hlast
      rw [targetsOf, Option.map_some, Option.toList_some, target_setTargets, hlast]
      have hlookup := lookup_of_mem hnodup ha
      rcases hbound a ha with hlt | ⟨⟨q, hq, hq'⟩, hlen⟩
      · refine getElem?_fill ?_ ?_
        · rw [List.length_append, List.length_map]
          omega
        · rw [if_neg (ne_of_lt hlt), hlookup]
      · refine getElem?_fill ?_ ?_
        · rw [List.length_append, List.length_map, hlen]
          exact Nat.lt_succ_self _
        · -- the number of the context disk is one of the second queue
          have hnumber : a.1 ∈ cdroms.1.map Prod.fst := by
            rw [hcdroms, List.map_append, List.mem_append]
            exact Or.inr (List.mem_map.mpr ⟨q, hq, hq'⟩)
          obtain ⟨b, hb, hfst⟩ := List.mem_map.mp hnumber
          have hb' := lookup_of_mem hnodup (List.mem_append_left _ (List.mem_append_right _ hb))
          rw [hfst, hlookup] at hb'
          rw [if_pos hlen, hb', ← hfst]
          refine lookup_of_mem (hnodup.sublist (List.Sublist.map _ ?_)) hb
          exact (List.sublist_append_right _ _).trans (List.sublist_append_left _ _)
    have hmem : ∀ t, t ∈ Vm.usedTargets ⟨l.disks, some ctx⟩ ↔
        t ∈ l.usedTargets ∨ (t ≠ "" ∧ t = ctx.target) := by
      intro t
      rw [hused, Vm.usedTargets, List.mem_filter, Option.map_some, Option.toList_some, List.mem_append,
        List.mem_singleton, decide_eq_true_iff]
      tauto
    by_cases hgiven : ctx.target ≠ ""
    · have hfree : ctx.target ∉ (assignDiskTargets l.osDisk l.usedTargets).2 := fun hmem => hdup ⟨hgiven, hmem⟩
      have hwaiting : waitingContext isQ35 l.disks.length (some ctx) = [] := if_pos hgiven
      have hos' : FirstFrees l.osDisk (ctx.target :: l.usedTargets)
          (assignDiskTargets l.osDisk l.usedTargets).1 := by
        refine hos.mono (List.subset_cons_self _ _) fun a ha hmem => ?_
        rcases List.mem_cons.mp hmem with heq | hmem
        · exact hfree ((hosAssigned.used _).mpr (Or.inr (heq ▸ List.mem_map_of_mem ha)))
        · exact hosAssigned.unused a ha hmem
      rw [if_pos hgiven]
      refine @hfinal (ctx.target :: l.usedTargets) _ ?_ (fun t => ?_) ?_
      · rw [queued, hwaiting, List.append_nil]
        refine firstFrees_queues hos' fun t => ?_
        rw [List.mem_cons, List.mem_cons, hosAssigned.used, or_assoc]
      · rw [hmem, List.mem_cons]
        constructor
        · rintro (rfl | ht)
          · exact Or.inr ⟨hgiven, rfl⟩
          · exact Or.inl ht
        · rintro (ht | ⟨-, ht⟩)
          · exact Or.inr ht
          · exact Or.inl ht
      · rw [hwaiting, List.append_nil]
        exact (firstFrees_assignDiskTargets _ _).map_fst
    · have hwaiting : waitingContext isQ35 l.disks.length (some ctx) =
          [(if ctx.devPrefix = "" then cdromDevPrefix isQ35 else ctx.devPrefix, l.disks.length)] :=
        if_neg hgiven
      rw [if_neg hgiven]
      refine @hfinal l.usedTargets _ ?_ (fun t => ?_) ?_
      · rw [queued, hwaiting]
        exact firstFrees_queues hos hosAssigned.used
      · rw [hmem, not_not.mp hgiven]
        exact ⟨Or.inl, fun ht => ht.resolve_right fun h => h.1 h.2⟩
      · rw [hwaiting]
        exact (firstFrees_assignDiskTargets _ _).map_fst

theorem apart_getImages {images images' : Images} {vmId uid imageId : ℤ} {ds : List Disk}
    {context : Option Context} {vm : Vm}
    (hget : getImages conf images vmId uid ds context isQ35 imageId = (images', .ok vm)) :
    Apart (targetsOf vm) := by
  rw [getImages] at hget
  split at hget
  · cases hget
  · rename_i l hdisks
    have hstart : TargetsKept (Loop.start images imageId) :=
      ⟨List.nodup_nil, fun target htarget => absurd htarget List.not_mem_nil⟩
    have hkept : TargetsKept l := hstart.getDisks ds hdisks
    split at hget
    · cases hget
    · rename_i vm' hassign
      cases hget
      exact hkept.assignTargets hassign

/-- What `get_images` gives to the disks of a virtual machine that have no target. -/
structure Named (images : Images) (isQ35 : Bool) (l : Loop) (context : Option Context) (vm : Vm) : Prop where
  /-- each disk that waits gets the first name that is free when its turn comes -/
  first : ∃ assigned, FirstFrees (queued isQ35 l context) (Vm.usedTargets ⟨l.disks, context⟩) assigned ∧
    ∀ a ∈ assigned, (targetsOf vm)[a.1]? = some a.2
  /-- all wait that have no target and are no file systems -/
  all : ∀ d ∈ vm.disks, d.target = "" →
    ∃ iid ∈ d.imageId, ∃ p, images iid = some p ∧ p.image.type = .filesystem

/-- **The disks without target get the first free names.** -/
theorem named_getImages {images images' : Images} {vmId uid imageId : ℤ} {ds : List Disk}
    {context : Option Context} {vm : Vm}
    (hget : getImages conf images vmId uid ds context isQ35 imageId = (images', .ok vm)) :
    ∃ l, getDisks conf vmId uid isQ35 (Loop.start images imageId) ds = .ok l ∧
      Named images isQ35 l context vm := by
  rw [getImages] at hget
  split at hget
  · cases hget
  · rename_i l hdisks
    split at hget
    · cases hget
    · rename_i vm' hassign
      cases hget
      have hstart : Waiting images (Loop.start images imageId) :=
        ⟨fun _ => rfl, fun t ht => absurd ht List.not_mem_nil, List.nodup_nil,
          fun q hq => absurd hq List.not_mem_nil, fun n d hd => by cases hd⟩
      have hkept : TargetsKept (Loop.start images imageId) :=
        ⟨List.nodup_nil, fun target htarget => absurd htarget List.not_mem_nil⟩
      have hwaiting := hstart.getDisks ds hdisks
      obtain ⟨assigned, hfirst, htargets, hset⟩ := hwaiting.assignTargets (hkept.getDisks ds hdisks) hassign
      refine ⟨l, hdisks, ⟨assigned, hfirst, htargets⟩, fun d hd hempty => ?_⟩
      rw [hset] at hd
      obtain ⟨n, hn, rfl⟩ := List.mem_iff_getElem.mp hd
      rw [setTargets, List.length_mapIdx] at hn
      simp only [setTargets, List.getElem_mapIdx] at hempty ⊢
      cases hlookup : assigned.lookup n with
      | some target =>
        rw [hlookup] at hempty
        exact absurd hempty (hfirst.ne_empty _ (mem_of_lookup hlookup))
      | none =>
        rw [hlookup] at hempty
        refine (hwaiting.waits n _ (List.getElem?_eq_getElem hn) hempty).resolve_left fun hmem => ?_
        have hnumber : n ∈ assigned.map Prod.fst := by
          rw [hfirst.map_fst, queued]
          obtain ⟨q, hq, heq⟩ := List.mem_map.mp hmem
          refine List.mem_map.mpr ⟨q, ?_, heq⟩
          simp only [List.mem_append] at hq ⊢
          tauto
        obtain ⟨b, hb, rfl⟩ := List.mem_map.mp hnumber
        exact bne_iff_ne.mp (List.lookup_eq_none_iff.mp hlookup b hb) rfl

end GetImages

/-! ## Runs -/

section Runs

variable {conf : Conf} {vm vm' : Vm}

/-- A new disk with a target that is not used. -/
theorem apart_attached (h : Apart (targetsOf vm)) {d : Disk} (hnew : d.target ∉ vm.usedTargets) :
    Apart (targetsOf { vm with disks := vm.disks ++ [d] }) := by
  have hused : Used (targetsOf vm) vm.usedTargets := by
    intro target htarget hne
    exact List.mem_filter.mpr ⟨htarget, by simpa using hne⟩
  have hlast := h.concat hused hnew
  have hperm : (targetsOf { vm with disks := vm.disks ++ [d] }).Perm (targetsOf vm ++ [d.target]) := by
    rw [targetsOf, targetsOf, List.map_append, List.append_assoc, List.append_assoc]
    exact List.Perm.append_left _ List.perm_append_comm
  exact (hperm.filter _).nodup_iff.mpr hlast

theorem apart_setUpAttach {images images' : Images} {vmId uid cid imageId : ℤ} {d : Disk}
    (h : Apart (targetsOf vm))
    (hattach : setUpAttach conf images vmId uid cid vm d imageId = (images', .ok vm')) :
    Apart (targetsOf vm') := by
  rw [setUpAttach] at hattach
  split at hattach
  · cases hattach
  · rename_i a hacquire
    by_cases hfs : a.disk.isFilesystem
    · rw [if_pos hfs] at hattach
      cases hattach
    rw [if_neg hfs] at hattach
    cases hrefused : attachRefused vm cid a.disk with
    | some e =>
      rw [hrefused] at hattach
      cases hattach
    | none =>
      rw [hrefused] at hattach
      cases hattach
      refine apart_attached h ?_
      dsimp only
      split_ifs with hempty
      · exact nextTarget_notMem _ _
      · intro hmem
        rw [attachRefused, if_pos ⟨hempty, hmem⟩] at hrefused
        cases hrefused

/-- **An attached disk** has the target that it brings, or the first free name. -/
theorem named_setUpAttach {images images' : Images} {vmId uid cid imageId : ℤ} {d : Disk}
    (hattach : setUpAttach conf images vmId uid cid vm d imageId = (images', .ok vm')) :
    ∃ a images₁, acquireDisk conf images vmId d (vm.maxDiskId + 1) uid true = (images₁, .ok a) ∧
      ∃ new, vm'.disks = vm.disks ++ [new] ∧ if a.disk.target = "" then
        FirstFree a.disk.devPrefix vm.usedTargets new.target else new.target = a.disk.target := by
  rw [setUpAttach] at hattach
  split at hattach
  · cases hattach
  · rename_i images₁ a hacquire
    by_cases hfs : a.disk.isFilesystem
    · rw [if_pos hfs] at hattach
      cases hattach
    rw [if_neg hfs] at hattach
    cases hrefused : attachRefused vm cid a.disk with
    | some e =>
      rw [hrefused] at hattach
      cases hattach
    | none =>
      rw [hrefused] at hattach
      cases hattach
      refine ⟨a, _, hacquire, _, rfl, ?_⟩
      split_ifs with hempty
      · exact firstFree_nextTarget a.disk.devPrefix vm.usedTargets
      · rfl

theorem targets_clearAttach (ds : List Disk) : (clearAttach ds).map Disk.target = ds.map Disk.target := by
  induction ds with
  | nil => rfl
  | cons d ds ih =>
    rw [clearAttach]
    split
    · rfl
    · rw [List.map_cons, List.map_cons, ih]

theorem targets_setAttach (vm : Vm) (diskId : ℤ) : targetsOf (setAttach vm diskId) = targetsOf vm := by
  rw [targetsOf, targetsOf, setAttach, List.map_map]
  congr 1
  refine List.map_congr_left fun d _ => ?_
  rw [Function.comp_apply]
  split <;> rfl

theorem apart_deleteAttachDisk {images : Images} {vmId uid : ℤ} (h : Apart (targetsOf vm)) :
    Apart (targetsOf (deleteAttachDisk conf images vmId uid vm).2) := by
  have hless : Apart (targetsOf { vm with disks := vm.disks.eraseP Disk.attach }) := by
    have hsub : (targetsOf { vm with disks := vm.disks.eraseP Disk.attach }).Sublist (targetsOf vm) :=
      List.Sublist.append_right (List.eraseP_sublist.map _) _
    exact List.Nodup.sublist (hsub.filter _) h
  rw [deleteAttachDisk]
  split
  · exact h
  · dsimp only
    split
    · split_ifs
      · exact hless
      · exact hless
    · exact hless

/-- The targets of every virtual machine are apart. -/
def AllApart (s : Cloud) : Prop := ∀ v, ∀ vm ∈ s.vms v, Apart (targetsOf vm)

theorem AllApart.put {s : Cloud} (h : AllApart s) {vmId : ℤ} {images : Images} {vm : Option Vm}
    (hvm : ∀ m ∈ vm, Apart (targetsOf m)) : AllApart (s.put vmId images vm) := by
  intro v m hm
  rw [Cloud.put] at hm
  dsimp only at hm
  rcases eq_or_ne v vmId with rfl | hne
  · rw [Function.update_self] at hm
    exact hvm m hm
  · rw [Function.update_of_ne hne] at hm
    exact h v m hm

theorem AllApart.put_some {s : Cloud} (h : AllApart s) {vmId : ℤ} {images : Images}
    (hvm : Apart (targetsOf vm)) : AllApart (s.put vmId images (some vm)) :=
  h.put fun _ hm => Option.some.inj hm ▸ hvm

/-- Every call keeps the targets apart. -/
theorem AllApart.handle {s s' : Cloud} {c : Call} {e : Option Error} (h : AllApart s)
    (hstep : handle conf s c = some (s', e)) : AllApart s' := by
  have hnone : ∀ m ∈ (none : Option Vm), Apart (targetsOf m) := fun m hm => nomatch hm
  cases c with
  | getImages vmId uid disks context isQ35 imageId =>
    simp only [VirtualMachineDisks.handle] at hstep
    cases hv : s.vms vmId with
    | some vm =>
      rw [hv] at hstep
      cases hstep
    | none =>
      rw [hv] at hstep
      rcases hget : getImages conf s.images vmId uid disks context isQ35 imageId with ⟨images, e' | vm⟩
      · rw [hget] at hstep
        cases hstep
        exact h.put hnone
      · rw [hget] at hstep
        cases hstep
        exact h.put_some (apart_getImages hget)
  | setUpAttach vmId uid cid disk imageId =>
    obtain ⟨vm, hvm, hstep⟩ := Option.map_eq_some_iff.mp hstep
    rcases hattach : setUpAttach conf s.images vmId uid cid vm disk imageId with ⟨images, e' | vm'⟩
    · rw [hattach] at hstep
      cases hstep
      exact h.put_some (h vmId vm hvm)
    · rw [hattach] at hstep
      cases hstep
      exact h.put_some (apart_setUpAttach (h vmId vm hvm) hattach)
  | attached vmId =>
    obtain ⟨vm, hvm, hstep⟩ := Option.map_eq_some_iff.mp hstep
    cases hstep
    refine h.put_some ?_
    rw [targetsOf, targets_clearAttach]
    exact h vmId vm hvm
  | setAttach vmId diskId =>
    obtain ⟨vm, hvm, hstep⟩ := Option.map_eq_some_iff.mp hstep
    cases hstep
    refine h.put_some ?_
    rw [targets_setAttach]
    exact h vmId vm hvm
  | deleteAttachDisk vmId uid =>
    obtain ⟨vm, hvm, hstep⟩ := Option.map_eq_some_iff.mp hstep
    cases hstep
    exact h.put_some (apart_deleteAttachDisk (h vmId vm hvm))
  | releaseImages vmId imageError =>
    obtain ⟨vm, hvm, hstep⟩ := Option.map_eq_some_iff.mp hstep
    cases hstep
    exact h.put hnone
  | setImageSize iid size =>
    cases hstep
    exact h

/-- **The targets of the disks of a virtual machine and of its context disk are distinct**, in every run
of calls.  A disk without target gets the first name of its prefix that is free when its turn comes, from
`get_images` (in the order of the queues) and from `set_up_attach`; the names are the prefix and the numerals
in base 26 with the digits from `a` to `z`, each of them once, so the search ends after the used targets at the
latest. -/
theorem targets_distinct (conf : Conf) :
    (∀ (images : Images) (s : Cloud), Run (step conf) ⟨images, fun _ => none⟩ s →
      ∀ v, ∀ vm ∈ s.vms v, vm.usedTargets.Nodup) ∧
    (∀ (images images' : Images) (vmId uid imageId : ℤ) (ds : List Disk) (context : Option Context)
      (isQ35 : Bool) (vm : Vm),
      getImages conf images vmId uid ds context isQ35 imageId = (images', .ok vm) →
      ∃ l, getDisks conf vmId uid isQ35 (Loop.start images imageId) ds = .ok l ∧
        Named images isQ35 l context vm) ∧
    (∀ (images images' : Images) (vmId uid cid imageId : ℤ) (vm vm' : Vm) (d : Disk),
      setUpAttach conf images vmId uid cid vm d imageId = (images', .ok vm') →
      ∃ a images₁, acquireDisk conf images vmId d (vm.maxDiskId + 1) uid true = (images₁, .ok a) ∧
        ∃ new, vm'.disks = vm.disks ++ [new] ∧ if a.disk.target = "" then
          FirstFree a.disk.devPrefix vm.usedTargets new.target else new.target = a.disk.target) ∧
    (∀ (devPrefix : String) (used : List String), ∃ first ≤ used.length,
      targetAt devPrefix first ∉ used ∧ (∀ i < first, targetAt devPrefix i ∈ used) ∧
      nextTarget devPrefix used = targetAt devPrefix first ∧
      ∀ fuel, used.length < fuel → searchLoop devPrefix used fuel 0 = some (targetAt devPrefix first)) ∧
    (∀ index, numeralLoop (index % 26) (index / 26) [] = letters index ∧
      numeralValue (letters index) = index + 1 ∧ ∀ c ∈ letters index, IsLetter c) ∧
    ∀ w : List Char, w ≠ [] → (∀ c ∈ w, IsLetter c) → ∃! index, letters index = w := by
  refine ⟨?_, fun _ _ _ _ _ _ _ _ _ => named_getImages, fun _ _ _ _ _ _ _ _ _ => named_setUpAttach,
    search_first, ?_, ?_⟩
  · intro images s hrun v vm hvm
    have hall : AllApart s := by
      refine hrun.inv (P := AllApart) (fun v vm hvm => nomatch hvm) ?_
      intro a c b ha _ hstep
      obtain ⟨⟨s₁, e⟩, hhandle, rfl⟩ := Option.map_eq_some_iff.mp hstep
      exact ha.handle hhandle
    exact hall v vm hvm
  · intro index
    refine ⟨?_, numeralValue_letters index, isLetter_letters index⟩
    rw [numeralLoop_eq, List.append_nil]
  · intro w hne hw
    obtain ⟨index, hindex⟩ := exists_letters w hne hw
    exact ⟨index, hindex, fun i hi => letters_injective (hi.trans hindex.symm)⟩

/-- The first free name when it has one letter. -/
theorem FirstFree.eq {devPrefix target : String} {used : List String} (h : FirstFree devPrefix used target)
    (first : ℕ) (hfirst : first < 26) (hfree : devPrefix ++ String.ofList [Char.ofNat (97 + first)] ∉ used)
    (hused : ∀ i < first, devPrefix ++ String.ofList [Char.ofNat (97 + i)] ∈ used) :
    target = devPrefix ++ String.ofList [Char.ofNat (97 + first)] := by
  obtain ⟨n, rfl, hnot, hbefore⟩ := h
  have hat : ∀ i < 26, targetAt devPrefix i = devPrefix ++ String.ofList [Char.ofNat (97 + i)] := by
    intro i hi
    rw [targetAt, letters_lt hi]
  have hn : n = first := by
    rcases lt_trichotomy n first with hlt | rfl | hlt
    · rw [hat n (hlt.trans hfirst)] at hnot
      exact absurd (hused n hlt) hnot
    · rfl
    · have hmem := hbefore first hlt
      rw [hat first hfirst] at hmem
      exact absurd hmem hfree
  rw [hn, hat first hfirst]

/-- A virtual machine with an image, a persistent image and a context disk, and an image that is attached to it,
all without target. -/
def attachRun : List Call :=
  [.getImages 7 0 [diskOf 3 "", diskOf 4 ""] (some ⟨0, "", ""⟩) false 0, .setUpAttach 7 0 0 (diskOf 3 "") 0]

theorem targets_distinct_attached :
    (∃ s vm, Run (step VirtualMachineDisks.conf) start s ∧ s.vms 7 = some vm ∧ vm.disks.length = 3 ∧
      vm.usedTargets.Nodup) ∧
    ∃ images vm, getImages VirtualMachineDisks.conf freeImages 7 0 [diskOf 3 "", diskOf 4 ""]
      (some ⟨0, "", ""⟩) false 0 = (images, .ok vm) ∧
      (targetsOf vm)[0]? = some "vda" ∧ (targetsOf vm)[1]? = some "vdb" ∧
        (targetsOf vm)[2]? = some "hda" := by
  obtain ⟨hdistinct, hnamed, -⟩ := targets_distinct VirtualMachineDisks.conf
  constructor
  · obtain ⟨s, vm, hs, hvm, hlen⟩ : ∃ s vm, Run (step VirtualMachineDisks.conf) start s ∧
        s.vms 7 = some vm ∧ vm.disks.length = 3 :=
      ⟨_, _, run_of_runEvents attachRun rfl, rfl, rfl⟩
    exact ⟨s, vm, hs, hvm, hlen, hdistinct freeImages s hs 7 vm hvm⟩
  · obtain ⟨l, hl, hos, hcdroms, hdatablocks, hlen, hgiven⟩ :
        ∃ l, getDisks VirtualMachineDisks.conf 7 0 false (Loop.start freeImages 0)
          [diskOf 3 "", diskOf 4 ""] = .ok l ∧ l.osDisk = [("vd", 0)] ∧ l.cdromDisks = [] ∧
            l.datablockDisks = [("vd", 1)] ∧ l.disks.length = 2 ∧
              Vm.usedTargets ⟨l.disks, some ⟨0, "", ""⟩⟩ = [] :=
      ⟨_, rfl, rfl, rfl, rfl, rfl, by decide⟩
    obtain ⟨images, vm, hget⟩ : ∃ images vm, getImages VirtualMachineDisks.conf freeImages 7 0
        [diskOf 3 "", diskOf 4 ""] (some ⟨0, "", ""⟩) false 0 = (images, .ok vm) := ⟨_, _, rfl⟩
    obtain ⟨l', hl', ⟨assigned, hfirst, htargets⟩, -⟩ := hnamed _ _ _ _ _ _ _ _ _ hget
    obtain rfl := Except.ok.inj (hl.symm.trans hl')
    rw [hgiven, queued, waitingContext, if_neg (by decide), hos, hcdroms, hdatablocks, hlen] at hfirst
    -- the image, the context disk and the persistent image, in this order
    obtain ⟨t, _, rfl, ht, t', _, rfl, ht', t'', _, rfl, ht'', -⟩ := hfirst
    obtain rfl := ht.eq 0 (by decide) (by decide) (by decide)
    obtain rfl := ht'.eq 0 (by decide) (by decide) (by decide)
    obtain rfl := ht''.eq 1 (by decide) (by decide) (by decide)
    refine ⟨images, vm, hget, htargets _ List.mem_cons_self, ?_, ?_⟩
    · exact htargets _ (List.mem_cons_of_mem _ (List.mem_cons_of_mem _ List.mem_cons_self))
    · exact htargets _ (List.mem_cons_of_mem _ List.mem_cons_self)

end Runs

end VirtualMachineDisks
