/-
# The cores of a NUMA node

What the operations on a core do to the machines on its CPUs, to its counters and to its reserved
CPUs.  Pinning a machine adds it to some CPUs (`Gained`) and leaves the other data; the counters of a
core always are those of its CPUs (`Counted`).  The attributes of a core determine it
(`reloadCore_eq`), except for the machines on its reserved CPUs, which are not written.
-/
import OpenNebula.NumaText

namespace Core

/-! ## Counters -/

/-- The number of machines on the CPUs of a core. -/
def total (cpus : OrderedMap ℕ (Multiset ℕ)) : ℕ := (cpus.map fun cpu => cpu.2.card).sum

/-- The places on the CPUs that are not reserved. -/
def room (c : Core) : ℕ := (c.cpus.length - c.reservedCpus.card) * c.vmsThread % 2 ^ 32

/-- The counters are those of the CPUs.  A dedicated core counts as one that is used. -/
def Counted (c : Core) : Prop :=
  if c.dedicated then c.usedCpus = 1 ∧ c.freeCpus = 0
  else c.usedCpus = total c.cpus ∧ c.freeCpus = c.room - c.usedCpus

section SetCpuUsage

variable (c : Core)

@[simp] theorem setCpuUsage_cpus : c.setCpuUsage.cpus = c.cpus := by
  unfold setCpuUsage
  split <;> rfl

@[simp] theorem setCpuUsage_reservedCpus : c.setCpuUsage.reservedCpus = c.reservedCpus := by
  unfold setCpuUsage
  split <;> rfl

@[simp] theorem setCpuUsage_vmsThread : c.setCpuUsage.vmsThread = c.vmsThread := by
  unfold setCpuUsage
  split <;> rfl

@[simp] theorem setCpuUsage_dedicated : c.setCpuUsage.dedicated = c.dedicated := by
  unfold setCpuUsage
  split <;> rfl

theorem counted_setCpuUsage : c.setCpuUsage.Counted := by
  unfold Counted
  rw [setCpuUsage_dedicated]
  unfold setCpuUsage
  split_ifs with hded
  · exact ⟨rfl, rfl⟩
  · refine ⟨rfl, ?_⟩
    dsimp only [room]
    split_ifs with hgt
    · omega
    · rfl

/-- The counters are determined by the rest of the core. -/
theorem Counted.setCpuUsage_eq {c : Core} (h : c.Counted) : c.setCpuUsage = c := by
  obtain ⟨free, used, vt, ded, cpus, reserved⟩ := c
  unfold Counted at h
  unfold setCpuUsage
  split_ifs at h ⊢ with hded
  · obtain ⟨hused, hfree⟩ := h
    dsimp only at hused hfree
    rw [hused, hfree]
  · obtain ⟨hused, hfree⟩ := h
    dsimp only [room, total] at hused hfree ⊢
    have hfree' : ∀ x y : ℕ, (if x > y then 0 else y - x) = y - x := by
      intro x y
      split_ifs with hgt
      · omega
      · rfl
    rw [hfree', ← hused, ← hfree]

end SetCpuUsage

/-- A core that is not used has no machine. -/
theorem Counted.empty_of_unused {c : Core} (h : c.Counted) (hused : c.usedCpus = 0) :
    ∀ cpu ∈ c.cpus, cpu.2 = 0 := by
  unfold Counted at h
  split_ifs at h with hded
  · omega
  · intro cpu hcpu
    have hsum : total c.cpus = 0 := by omega
    have hcard : cpu.2.card = 0 := List.sum_eq_zero_iff.mp hsum _ (List.mem_map_of_mem hcpu)
    exact Multiset.card_eq_zero.mp hcard

/-! ## A machine is added to some CPUs -/

/-- The machine is added to some of the CPUs, which meet a condition. -/
def Gained (vmid : ℕ) (ok : ℕ × Multiset ℕ → Prop) (cpus cpus' : OrderedMap ℕ (Multiset ℕ)) : Prop :=
  List.Forall₂ (fun cpu cpu' => cpu' = cpu ∨ (ok cpu ∧ cpu' = (cpu.1, vmid ::ₘ cpu.2))) cpus cpus'

section Gained

variable {vmid : ℕ} {ok : ℕ × Multiset ℕ → Prop} {cpus cpus' : OrderedMap ℕ (Multiset ℕ)}

theorem Gained.refl (vmid : ℕ) (ok : ℕ × Multiset ℕ → Prop) (cpus : OrderedMap ℕ (Multiset ℕ)) :
    Gained vmid ok cpus cpus :=
  List.forall₂_same.mpr fun _ _ => Or.inl rfl

theorem Gained.mem (h : Gained vmid ok cpus cpus') {cpu' : ℕ × Multiset ℕ} (hmem : cpu' ∈ cpus') :
    cpu' ∈ cpus ∨ ∃ cpu ∈ cpus, ok cpu ∧ cpu' = (cpu.1, vmid ::ₘ cpu.2) := by
  induction h with
  | nil => exact absurd hmem List.not_mem_nil
  | @cons cpu cpu'' cpus cpus' hcpu htail ih =>
    rcases List.mem_cons.mp hmem with rfl | hmem
    · rcases hcpu with rfl | ⟨hok, rfl⟩
      · exact Or.inl List.mem_cons_self
      · exact Or.inr ⟨cpu, List.mem_cons_self, hok, rfl⟩
    · rcases ih hmem with h | ⟨x, hx, hok, rfl⟩
      · exact Or.inl (List.mem_cons_of_mem _ h)
      · exact Or.inr ⟨x, List.mem_cons_of_mem _ hx, hok, rfl⟩

/-- A CPU is there afterwards, with the machine or without it. -/
theorem Gained.exists_mem (h : Gained vmid ok cpus cpus') {cpu : ℕ × Multiset ℕ} (hmem : cpu ∈ cpus) :
    cpu ∈ cpus' ∨ (cpu.1, vmid ::ₘ cpu.2) ∈ cpus' := by
  induction h with
  | nil => exact absurd hmem List.not_mem_nil
  | @cons x x' cpus cpus' hx htail ih =>
    rcases List.mem_cons.mp hmem with rfl | hmem
    · rcases hx with rfl | ⟨-, rfl⟩
      · exact Or.inl List.mem_cons_self
      · exact Or.inr List.mem_cons_self
    · rcases ih hmem with h | h
      · exact Or.inl (List.mem_cons_of_mem _ h)
      · exact Or.inr (List.mem_cons_of_mem _ h)

theorem Gained.keys (h : Gained vmid ok cpus cpus') : cpus'.keys = cpus.keys := by
  induction h with
  | nil => rfl
  | cons hcpu _ ih =>
    rw [OrderedMap.keys, OrderedMap.keys, List.map_cons, List.map_cons]
    rw [OrderedMap.keys, OrderedMap.keys] at ih
    rw [ih]
    rcases hcpu with rfl | ⟨-, rfl⟩
    · rfl
    · rfl

theorem sorted_of_keys (h : cpus'.keys = cpus.keys) (hsorted : cpus.Sorted) : cpus'.Sorted := by
  have hpair : cpus.keys.Pairwise (· < ·) := List.pairwise_map.mpr hsorted
  rw [← h] at hpair
  exact List.pairwise_map.mp hpair

end Gained

/-! ## Threads -/

/-- The CPUs that can take one more machine. -/
def openCpus (vmsThread : ℕ) (reserved : Finset ℕ) (cpus : OrderedMap ℕ (Multiset ℕ)) : ℕ :=
  cpus.countP fun cpu => cpu.2.card < vmsThread ∧ cpu.1 ∉ reserved

/-- The number of times that a machine is on the CPU of a number. -/
def pinsOn (cpus : OrderedMap ℕ (Multiset ℕ)) (id vm : ℕ) : ℕ :=
  (cpus.map fun cpu => if cpu.1 = id then cpu.2.count vm else 0).sum

section TakeCpus

variable (vmid vmsThread : ℕ) (reserved : Finset ℕ) (cpus : OrderedMap ℕ (Multiset ℕ))

theorem takeCpus_gained : ∀ cToAlloc tcpus : ℕ,
    Gained vmid (fun cpu => cpu.2.card < vmsThread ∧ cpu.1 ∉ reserved) cpus
      (takeCpus vmid vmsThread reserved cpus cToAlloc tcpus).1 := by
  induction cpus with
  | nil => exact fun _ _ => List.Forall₂.nil
  | cons cpu cpus ih =>
    intro cToAlloc tcpus
    rw [takeCpus]
    split_ifs with hend hfull
    · exact Gained.refl _ _ _
    · exact List.Forall₂.cons (Or.inl rfl) (ih _ _)
    · obtain ⟨hcard, hreserved⟩ := not_or.mp hfull
      exact List.Forall₂.cons (Or.inr ⟨⟨by omega, hreserved⟩, rfl⟩) (ih _ _)

/-- **A core gives as many CPUs as it is asked for, as it may give and as are open.** -/
theorem takeCpus_length : ∀ cToAlloc tcpus : ℕ,
    (takeCpus vmid vmsThread reserved cpus cToAlloc tcpus).2.length =
      min (min cToAlloc (openCpus vmsThread reserved cpus)) tcpus := by
  induction cpus with
  | nil =>
    intro cToAlloc tcpus
    simp [takeCpus, openCpus]
  | cons cpu cpus ih =>
    intro cToAlloc tcpus
    rw [takeCpus, openCpus, List.countP_cons]
    by_cases hend : cToAlloc = 0 ∨ tcpus = 0
    · rw [if_pos hend, List.length_nil]
      omega
    · rw [if_neg hend]
      by_cases hfull : cpu.2.card ≥ vmsThread ∨ cpu.1 ∈ reserved
      · have hopen : ¬(cpu.2.card < vmsThread ∧ cpu.1 ∉ reserved) := by
          rintro ⟨hcard, hreserved⟩
          rcases hfull with h | h
          · omega
          · exact hreserved h
        rw [if_pos hfull, if_neg (by rwa [decide_eq_true_eq])]
        exact ih cToAlloc tcpus
      · obtain ⟨hcard, hreserved⟩ := not_or.mp hfull
        have hopen : cpu.2.card < vmsThread ∧ cpu.1 ∉ reserved := ⟨by omega, hreserved⟩
        rw [if_neg hfull, if_pos (by rwa [decide_eq_true_eq])]
        have h := ih (cToAlloc - 1) (tcpus - 1)
        unfold openCpus at h
        dsimp only
        rw [List.length_cons, h]
        omega

theorem total_cons (cpu : ℕ × Multiset ℕ) (cpus : OrderedMap ℕ (Multiset ℕ)) :
    total (cpu :: cpus) = cpu.2.card + total cpus := by
  rw [total, total, List.map_cons, List.sum_cons]

theorem takeCpus_total : ∀ cToAlloc tcpus : ℕ,
    total (takeCpus vmid vmsThread reserved cpus cToAlloc tcpus).1 =
      total cpus + (takeCpus vmid vmsThread reserved cpus cToAlloc tcpus).2.length := by
  induction cpus with
  | nil => exact fun _ _ => rfl
  | cons cpu cpus ih =>
    intro cToAlloc tcpus
    rw [takeCpus]
    split_ifs with hend hfull
    · rfl
    · dsimp only
      rw [total_cons, total_cons, ih cToAlloc tcpus]
      omega
    · dsimp only
      rw [total_cons, total_cons, ih (cToAlloc - 1) (tcpus - 1), List.length_cons,
        Multiset.card_cons]
      omega

theorem pinsOn_cons (cpu : ℕ × Multiset ℕ) (cpus : OrderedMap ℕ (Multiset ℕ)) (id vm : ℕ) :
    pinsOn (cpu :: cpus) id vm = (if cpu.1 = id then cpu.2.count vm else 0) + pinsOn cpus id vm := by
  rw [pinsOn, pinsOn, List.map_cons, List.sum_cons]

/-- The machine is added to a CPU. -/
theorem pinsOn_add (cpu : ℕ × Multiset ℕ) (cpus : OrderedMap ℕ (Multiset ℕ)) (id vm : ℕ) :
    pinsOn ((cpu.1, vmid ::ₘ cpu.2) :: cpus) id vm =
      pinsOn (cpu :: cpus) id vm + if vm = vmid ∧ cpu.1 = id then 1 else 0 := by
  rw [pinsOn_cons, pinsOn_cons, Multiset.count_cons]
  split_ifs
  all_goals omega

/-- The machine is added once for each CPU that is given. -/
theorem takeCpus_pins (id vm : ℕ) : ∀ cToAlloc tcpus : ℕ,
    pinsOn (takeCpus vmid vmsThread reserved cpus cToAlloc tcpus).1 id vm =
      pinsOn cpus id vm +
        if vm = vmid then (takeCpus vmid vmsThread reserved cpus cToAlloc tcpus).2.count id else 0 := by
  induction cpus with
  | nil =>
    intro cToAlloc tcpus
    simp [takeCpus, pinsOn]
  | cons cpu cpus ih =>
    intro cToAlloc tcpus
    rw [takeCpus]
    by_cases hend : cToAlloc = 0 ∨ tcpus = 0
    · rw [if_pos hend]
      simp
    · rw [if_neg hend]
      by_cases hfull : cpu.2.card ≥ vmsThread ∨ cpu.1 ∈ reserved
      · rw [if_pos hfull]
        dsimp only
        rw [pinsOn_cons, pinsOn_cons, ih cToAlloc tcpus]
        omega
      · rw [if_neg hfull]
        dsimp only
        rw [pinsOn_add, pinsOn_cons, pinsOn_cons, ih (cToAlloc - 1) (tcpus - 1)]
        simp only [List.count_cons, beq_iff_eq]
        split_ifs
        all_goals omega

end TakeCpus

/-! ## Sound cores -/

/-- What holds of every core of a host. -/
structure Sound (vt : ℕ) (c : Core) : Prop where
  formed : Formed c.cpus c.reservedCpus
  counted : c.Counted
  thread : c.vmsThread = vt

/-- Every CPU has as many machines as it may have. -/
def Fits (vt : ℕ) (c : Core) : Prop := ∀ cpu ∈ c.cpus, cpu.2.card ≤ vt

/-- No machine is on a reserved CPU. -/
def Clear (c : Core) : Prop := ∀ cpu ∈ c.cpus, cpu.1 ∈ c.reservedCpus → cpu.2 = 0

section Sound

variable {vt : ℕ} {c : Core}

theorem sound_setCpuUsage (hformed : Formed c.cpus c.reservedCpus) (hthread : c.vmsThread = vt) :
    Sound vt c.setCpuUsage where
  formed := by rwa [setCpuUsage_cpus, setCpuUsage_reservedCpus]
  counted := counted_setCpuUsage c
  thread := by rwa [setCpuUsage_vmsThread]

/-- The keys are left. -/
theorem Formed.of_keys {cpus cpus' : OrderedMap ℕ (Multiset ℕ)} {reserved : Finset ℕ}
    (h : Formed cpus reserved) (hkeys : cpus'.keys = cpus.keys)
    (hvms : ∀ cpu ∈ cpus', ∀ vm ∈ cpu.2, vm < 2 ^ 31) : Formed cpus' reserved where
  sorted := sorted_of_keys hkeys h.sorted
  ids := by
    intro cpu hcpu
    have hkey : cpu.1 ∈ cpus.keys := by
      rw [← hkeys]
      exact List.mem_map_of_mem hcpu
    obtain ⟨cpu', hcpu', heq⟩ := List.mem_map.mp hkey
    rw [← heq]
    exact h.ids cpu' hcpu'
  vms := hvms
  reserved := by
    intro id hid
    rw [hkeys]
    exact h.reserved id hid

/-! ### A core from a text -/

theorem foldl_addThread_sound (threads : List Text) :
    ∀ c : Core, Formed c.cpus c.reservedCpus → c.vmsThread = vt →
      Formed (threads.foldl addThread c).cpus (threads.foldl addThread c).reservedCpus ∧
        (threads.foldl addThread c).vmsThread = vt := by
  induction threads with
  | nil => exact fun c hformed hthread => ⟨hformed, hthread⟩
  | cons thread threads ih =>
    intro c hformed hthread
    rw [List.foldl_cons]
    refine ih _ (formed_addThread hformed thread) ?_
    unfold addThread
    split
    · exact hthread
    · split_ifs <;> exact hthread

/-- **A core that is read is sound, whatever the text.** -/
theorem sound_new (text : Text) (vt : ℕ) (dedicated : Bool) : Sound vt (new text vt dedicated) := by
  obtain ⟨hformed, hthread⟩ := foldl_addThread_sound
    ((text.splitOn ',').filter fun thread => !thread.isEmpty) ⟨0, 0, vt, dedicated, [], ∅⟩ formed_nil
    rfl
  exact sound_setCpuUsage hformed hthread

/-- **A core that is stored and read back is the one it was, without the machines on its reserved
CPUs.** -/
theorem reloadCore_eq (h : Sound vt c) (id : ℕ) :
    HostShareNUMA.reloadCore vt id c =
      { c with cpus := c.cpus.map (stored c.reservedCpus) }.setCpuUsage := by
  unfold HostShareNUMA.reloadCore
  dsimp only
  rw [new_toAttribute h.formed, show (c.toAttribute id).dedicated = c.dedicated from rfl]
  unfold setCpuUsage
  rw [h.thread]

/-- A core without machines on its reserved CPUs is read back as it was. -/
theorem reloadCore_of_clear (h : Sound vt c) (hclear : c.Clear) (coreId : ℕ) :
    HostShareNUMA.reloadCore vt coreId c = c := by
  have hstored : ∀ cpu ∈ c.cpus, stored c.reservedCpus cpu = cpu := by
    intro cpu hcpu
    unfold stored
    split_ifs with hres
    · rw [← hclear cpu hcpu hres]
    · rfl
  have hmap : c.cpus.map (stored c.reservedCpus) = c.cpus :=
    calc c.cpus.map (stored c.reservedCpus) = c.cpus.map id := List.map_congr_left hstored
      _ = c.cpus := List.map_id _
  rw [reloadCore_eq h, hmap]
  exact h.counted.setCpuUsage_eq

/-! ### Reserved CPUs -/

/-- The reserved CPUs after one more CPU (`HostShareNode::reserve_cpus`). -/
theorem foldl_reserve {ids : List ℕ} {id : ℕ} (cpus : OrderedMap ℕ (Multiset ℕ)) :
    ∀ acc : Finset ℕ × Bool,
      id ∈ (cpus.foldl (fun (acc : Finset ℕ × Bool) (cpu : ℕ × Multiset ℕ) =>
        if cpu.1 ∈ ids then
          if cpu.2 = 0 then (insert cpu.1 acc.1, true) else acc
        else if cpu.1 ∈ acc.1 then (acc.1.erase cpu.1, true)
        else acc) acc).1 → id ∈ acc.1 ∨ (id, 0) ∈ cpus := by
  induction cpus with
  | nil => exact fun acc hid => Or.inl hid
  | cons cpu cpus ih =>
    intro acc hid
    rw [List.foldl_cons] at hid
    rcases ih _ hid with hid | hid
    · split_ifs at hid with hmem hempty hres
      · rcases Finset.mem_insert.mp hid with rfl | hid
        · rw [← hempty]
          exact Or.inr List.mem_cons_self
        · exact Or.inl hid
      · exact Or.inl hid
      · exact Or.inl (Finset.mem_of_mem_erase hid)
      · exact Or.inl hid
    · exact Or.inr (List.mem_cons_of_mem _ hid)

/-- A CPU that becomes reserved has no machine. -/
theorem mem_reserveCpus {ids : List ℕ} {id : ℕ} (hid : id ∈ (c.reserveCpus ids).reservedCpus) :
    id ∈ c.reservedCpus ∨ (id, 0) ∈ c.cpus := by
  unfold reserveCpus at hid
  dsimp only at hid
  split_ifs at hid
  · rw [setCpuUsage_reservedCpus] at hid
    exact foldl_reserve c.cpus (c.reservedCpus, false) hid
  · exact Or.inl hid

@[simp] theorem reserveCpus_cpus (ids : List ℕ) : (c.reserveCpus ids).cpus = c.cpus := by
  unfold reserveCpus
  dsimp only
  split_ifs
  · rw [setCpuUsage_cpus]
  · rfl

theorem Sound.reserveCpus (h : Sound vt c) (ids : List ℕ) : Sound vt (c.reserveCpus ids) := by
  have hformed : Formed (c.reserveCpus ids).cpus (c.reserveCpus ids).reservedCpus := by
    rw [reserveCpus_cpus]
    refine ⟨h.formed.sorted, h.formed.ids, h.formed.vms, fun id hid => ?_⟩
    rcases mem_reserveCpus hid with hid | hid
    · exact h.formed.reserved id hid
    · exact List.mem_map_of_mem hid
  refine ⟨hformed, ?_, ?_⟩
  · unfold Core.reserveCpus
    dsimp only
    split_ifs
    · exact counted_setCpuUsage _
    · exact h.counted
  · unfold Core.reserveCpus
    dsimp only
    split_ifs
    · rw [setCpuUsage_vmsThread]
      exact h.thread
    · exact h.thread

theorem Clear.reserveCpus (h : c.Clear) (hsorted : c.cpus.Sorted) (ids : List ℕ) :
    (c.reserveCpus ids).Clear := by
  intro cpu hcpu hres
  rw [reserveCpus_cpus] at hcpu
  rcases mem_reserveCpus hres with hres | hempty
  · exact h cpu hcpu hres
  · rw [hsorted.unique hcpu hempty rfl]

/-! ### Dedicated cores -/

theorem dedicable_iff : c.dedicable = true ↔ c.reservedCpus.card < c.cpus.length ∧ c.usedCpus = 0 := by
  rw [dedicable, Bool.and_eq_true, decide_eq_true_eq, decide_eq_true_eq]

/-- A core that can be dedicated has a CPU, and no machine. -/
theorem exists_cons_of_dedicable (hcounted : c.Counted) (h : c.dedicable = true) :
    ∃ id cpus, c.cpus = (id, 0) :: cpus ∧ ∀ cpu ∈ cpus, cpu.2 = 0 := by
  obtain ⟨hcard, hused⟩ := dedicable_iff.mp h
  have hempty := hcounted.empty_of_unused hused
  cases hcpus : c.cpus with
  | nil =>
    rw [hcpus, List.length_nil] at hcard
    omega
  | cons cpu cpus =>
    rw [hcpus] at hempty
    obtain ⟨hfirst, hrest⟩ := List.forall_mem_cons.mp hempty
    exact ⟨cpu.1, cpus, by rw [← hfirst], hrest⟩

theorem dedicate_reservedCpus (vmid : ℕ) : (c.dedicate vmid).reservedCpus = c.reservedCpus := by
  unfold dedicate
  split <;> rfl

theorem Sound.dedicate (h : Sound vt c) (hded : c.dedicable = true) {vmid : ℕ} (hvm : vmid < 2 ^ 31) :
    Sound vt (c.dedicate vmid) := by
  obtain ⟨id, cpus, hcpus, hrest⟩ := exists_cons_of_dedicable h.counted hded
  have hformed := h.formed
  unfold Core.dedicate
  rw [hcpus] at hformed ⊢
  refine ⟨hformed.of_keys rfl ?_, ?_, h.thread⟩
  · intro cpu hcpu vm hmem
    rcases List.mem_cons.mp hcpu with rfl | hcpu
    · have hmem : vm ∈ vmid ::ₘ (0 : Multiset ℕ) := hmem
      rcases Multiset.mem_cons.mp hmem with rfl | hmem
      · exact hvm
      · exact absurd hmem (Multiset.notMem_zero vm)
    · exact hformed.vms cpu (List.mem_cons_of_mem _ hcpu) vm hmem
  · unfold Counted
    exact ⟨rfl, rfl⟩

theorem fits_dedicate (hcounted : c.Counted) (hded : c.dedicable = true) (hvt : 0 < vt) (vmid : ℕ) :
    Fits vt (c.dedicate vmid) := by
  obtain ⟨id, cpus, hcpus, hrest⟩ := exists_cons_of_dedicable hcounted hded
  unfold dedicate
  rw [hcpus]
  intro cpu hcpu
  rcases List.mem_cons.mp hcpu with rfl | hcpu
  · rw [Multiset.card_cons, Multiset.card_zero]
    omega
  · rw [hrest cpu hcpu, Multiset.card_zero]
    omega

theorem clear_dedicate (hcounted : c.Counted) (hded : c.dedicable = true) (vmid : ℕ)
    (hfirst : ∀ cpu ∈ c.cpus.head?, cpu.1 ∉ c.reservedCpus) : (c.dedicate vmid).Clear := by
  obtain ⟨id, cpus, hcpus, hrest⟩ := exists_cons_of_dedicable hcounted hded
  intro cpu hcpu hres
  rw [dedicate_reservedCpus] at hres
  unfold dedicate at hcpu
  rw [hcpus] at hcpu hfirst
  rcases List.mem_cons.mp hcpu with rfl | hcpu
  · exact absurd hres (hfirst (id, 0) rfl)
  · exact hrest cpu hcpu

/-- The first CPU of the core gets the machine. -/
theorem pinsOn_dedicate (vmid id vm : ℕ) :
    pinsOn (c.dedicate vmid).cpus id vm =
      pinsOn c.cpus id vm + if vm = vmid then (c.cpus.keys.take 1).count id else 0 := by
  unfold dedicate
  cases hcpus : c.cpus with
  | nil =>
    dsimp only
    rw [hcpus]
    simp [pinsOn, OrderedMap.keys]
  | cons cpu cpus =>
    dsimp only
    rw [pinsOn_add, OrderedMap.keys, List.map_cons, List.take_succ_cons, List.take_zero]
    simp only [List.count_cons, List.count_nil, beq_iff_eq]
    split_ifs
    all_goals omega

theorem length_take_keys (hded : c.dedicable = true) : (c.cpus.keys.take 1).length = 1 := by
  obtain ⟨hcard, -⟩ := dedicable_iff.mp hded
  rw [List.length_take, OrderedMap.keys, List.length_map]
  omega

/-- A core that is dedicated cannot be dedicated again. -/
theorem dedicable_dedicate (hded : c.dedicable = true) (vmid : ℕ) :
    (c.dedicate vmid).dedicable = false := by
  obtain ⟨hcard, -⟩ := dedicable_iff.mp hded
  unfold dedicate
  cases hcpus : c.cpus with
  | nil =>
    rw [hcpus, List.length_nil] at hcard
    omega
  | cons cpu cpus => exact Bool.and_false _

/-! ### Threads -/

section Threads

variable (vmid tc tcpus : ℕ)

theorem takeThreads_gained :
    Gained vmid (fun cpu => cpu.2.card < c.vmsThread ∧ cpu.1 ∉ c.reservedCpus) c.cpus
      (c.takeThreads vmid tc tcpus).1.cpus :=
  takeCpus_gained vmid c.vmsThread c.reservedCpus c.cpus _ _

/-- The CPUs that a core gives in groups of `tc` threads at most. -/
def offer (tc : ℕ) (c : Core) : ℕ :=
  min (c.freeCpus / tc * tc) (openCpus c.vmsThread c.reservedCpus c.cpus)

theorem takeThreads_length : (c.takeThreads vmid tc tcpus).2.length = min (c.offer tc) tcpus :=
  takeCpus_length vmid c.vmsThread c.reservedCpus c.cpus _ _

variable {vmid}

theorem Counted.takeThreads (h : c.Counted) : (c.takeThreads vmid tc tcpus).1.Counted := by
  have hlength := takeThreads_length (c := c) vmid tc tcpus
  have htotal := takeCpus_total vmid c.vmsThread c.reservedCpus c.cpus (c.freeCpus / tc * tc) tcpus
  have hkeys := congrArg List.length (takeThreads_gained (c := c) vmid tc tcpus).keys
  rw [OrderedMap.keys, OrderedMap.keys, List.length_map, List.length_map] at hkeys
  have hfree : c.offer tc ≤ c.freeCpus := (Nat.min_le_left _ _).trans (Nat.div_mul_le_self _ _)
  unfold Counted room at h ⊢
  rw [hkeys]
  unfold Core.takeThreads at hlength ⊢
  dsimp only at hlength ⊢
  rw [htotal]
  split_ifs at h ⊢ with hded
  · obtain ⟨hused, hzero⟩ := h
    constructor <;> omega
  · obtain ⟨hused, hroom⟩ := h
    constructor <;> omega

theorem Sound.takeThreads (h : Sound vt c) (hvm : vmid < 2 ^ 31) :
    Sound vt (c.takeThreads vmid tc tcpus).1 where
  formed := by
    have hgained := takeThreads_gained (c := c) vmid tc tcpus
    refine h.formed.of_keys hgained.keys fun cpu hcpu vm hmem => ?_
    rcases hgained.mem hcpu with hcpu | ⟨cpu', hcpu', -, rfl⟩
    · exact h.formed.vms cpu hcpu vm hmem
    · rcases Multiset.mem_cons.mp hmem with rfl | hmem
      · exact hvm
      · exact h.formed.vms cpu' hcpu' vm hmem
  counted := h.counted.takeThreads tc tcpus
  thread := h.thread

theorem Fits.takeThreads (h : Fits vt c) (hthread : c.vmsThread = vt) :
    Fits vt (c.takeThreads vmid tc tcpus).1 := by
  intro cpu hcpu
  rcases (takeThreads_gained vmid tc tcpus).mem hcpu with hcpu | ⟨cpu', -, ⟨hcard, -⟩, rfl⟩
  · exact h cpu hcpu
  · rw [Multiset.card_cons]
    omega

theorem Clear.takeThreads (h : c.Clear) : (c.takeThreads vmid tc tcpus).1.Clear := by
  intro cpu hcpu hres
  rcases (takeThreads_gained vmid tc tcpus).mem hcpu with hcpu | ⟨cpu', -, ⟨-, hnot⟩, rfl⟩
  · exact h cpu hcpu hres
  · exact absurd hres hnot

/-- The CPUs that a core gives are its own. -/
theorem takeCpus_mem (vmsThread : ℕ) (reserved : Finset ℕ) (cpus : OrderedMap ℕ (Multiset ℕ)) :
    ∀ cToAlloc tcpus id : ℕ, id ∈ (takeCpus vmid vmsThread reserved cpus cToAlloc tcpus).2 →
      id ∈ cpus.keys := by
  induction cpus with
  | nil => exact fun _ _ _ hid => absurd hid List.not_mem_nil
  | cons cpu cpus ih =>
    intro cToAlloc tcpus id hid
    rw [takeCpus] at hid
    split_ifs at hid
    · exact absurd hid List.not_mem_nil
    · exact List.mem_cons_of_mem _ (ih _ _ _ hid)
    · rcases List.mem_cons.mp hid with rfl | hid
      · exact List.mem_cons_self
      · exact List.mem_cons_of_mem _ (ih _ _ _ hid)

end Threads

/-! ### A machine leaves -/

/-- The CPUs of a core without a machine on some of them. -/
theorem mem_delCpus {ids : List ℕ} {vmid : ℕ} {cpu : ℕ × Multiset ℕ}
    (hcpu : cpu ∈ (c.delCpus ids vmid).cpus) : ∃ cpu' ∈ c.cpus, cpu.1 = cpu'.1 ∧ cpu.2 ≤ cpu'.2 := by
  unfold delCpus at hcpu
  split_ifs at hcpu
  · rw [setCpuUsage_cpus] at hcpu
    obtain ⟨cpu', hcpu', rfl⟩ := List.mem_map.mp hcpu
    refine ⟨cpu', hcpu', ?_⟩
    split_ifs
    · exact ⟨rfl, Multiset.filter_le _ _⟩
    · exact ⟨rfl, le_rfl⟩
  · exact ⟨cpu, hcpu, rfl, le_rfl⟩

@[simp] theorem delCpus_reservedCpus (ids : List ℕ) (vmid : ℕ) :
    (c.delCpus ids vmid).reservedCpus = c.reservedCpus := by
  unfold delCpus
  split_ifs
  · rw [setCpuUsage_reservedCpus]
  · rfl

theorem delCpus_keys (ids : List ℕ) (vmid : ℕ) : (c.delCpus ids vmid).cpus.keys = c.cpus.keys := by
  unfold delCpus
  split_ifs
  · rw [setCpuUsage_cpus, OrderedMap.keys, List.map_map]
    refine List.map_congr_left fun cpu _ => ?_
    dsimp only [Function.comp]
    split_ifs <;> rfl
  · rfl

theorem Sound.delCpus (h : Sound vt c) (ids : List ℕ) (vmid : ℕ) : Sound vt (c.delCpus ids vmid) where
  formed := by
    rw [delCpus_reservedCpus]
    refine h.formed.of_keys (delCpus_keys ids vmid) fun cpu hcpu vm hmem => ?_
    obtain ⟨cpu', hcpu', -, hle⟩ := mem_delCpus hcpu
    exact h.formed.vms cpu' hcpu' vm (Multiset.mem_of_le hle hmem)
  counted := by
    unfold Core.delCpus
    split_ifs
    · exact counted_setCpuUsage _
    · exact h.counted
  thread := by
    unfold Core.delCpus
    split_ifs
    · rw [setCpuUsage_vmsThread]
      exact h.thread
    · exact h.thread

theorem Fits.delCpus (h : Fits vt c) (ids : List ℕ) (vmid : ℕ) : Fits vt (c.delCpus ids vmid) := by
  intro cpu hcpu
  obtain ⟨cpu', hcpu', -, hle⟩ := mem_delCpus hcpu
  exact (Multiset.card_le_card hle).trans (h cpu' hcpu')

theorem Clear.delCpus (h : c.Clear) (ids : List ℕ) (vmid : ℕ) : (c.delCpus ids vmid).Clear := by
  intro cpu hcpu hres
  rw [delCpus_reservedCpus] at hres
  obtain ⟨cpu', hcpu', hkey, hle⟩ := mem_delCpus hcpu
  rw [hkey] at hres
  rw [h cpu' hcpu' hres] at hle
  exact nonpos_iff_eq_zero.mp hle

/-! ### Stored cores and other numbers of machines -/

theorem mem_reloadCore (h : Sound vt c) {coreId : ℕ} {cpu : ℕ × Multiset ℕ}
    (hcpu : cpu ∈ (HostShareNUMA.reloadCore vt coreId c).cpus) :
    ∃ cpu' ∈ c.cpus, cpu = stored c.reservedCpus cpu' := by
  rw [reloadCore_eq h, setCpuUsage_cpus] at hcpu
  obtain ⟨cpu', hcpu', rfl⟩ := List.mem_map.mp hcpu
  exact ⟨cpu', hcpu', rfl⟩

theorem Fits.reloadCore (h : Fits vt c) (hsound : Sound vt c) (coreId : ℕ) :
    Fits vt (HostShareNUMA.reloadCore vt coreId c) := by
  intro cpu hcpu
  obtain ⟨cpu', hcpu', rfl⟩ := mem_reloadCore hsound hcpu
  unfold stored
  dsimp only
  split_ifs
  · exact Nat.zero_le _
  · exact h cpu' hcpu'

theorem Sound.setThread (h : Sound vt c) (vt' : ℕ) :
    Sound vt' { c with vmsThread := vt' }.setCpuUsage :=
  sound_setCpuUsage (c := { c with vmsThread := vt' }) h.formed rfl

end Sound

end Core
