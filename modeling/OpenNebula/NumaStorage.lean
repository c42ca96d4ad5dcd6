/-
# Reserved CPUs and stored cores

The CPUs that are reserved for the host are marked in the text of a core, where the mark stands in the
place of the machines.  `allocate_ht_cpus` leaves them out.  `allocate_dedicated_cpus` takes the first
CPU of a core without a look at the mark, and the machine on it is lost when the host is read back
(`not_stored`).  While the first CPUs of the cores that are dedicated are not reserved, no machine is on
a reserved CPU and every core is read back as it was (`stored_of_reach`).
-/
import OpenNebula.NumaRuns

open Transition

namespace NumaStorage

open Core HostShareNUMA NumaShare

variable {F : Type*} [LinearOrder F] (fit : ℕ → ℕ → Bool → F)

/-! ## Reserved CPUs -/

/-- The reserved CPUs of the cores of a node. -/
def coreMarks (cores : OrderedMap ℕ Core) : OrderedMap ℕ (Finset ℕ) :=
  cores.map fun c => (c.1, c.2.reservedCpus)

/-- The reserved CPUs of the cores of a host. -/
def marks (numa : HostShareNUMA) : OrderedMap ℤ (OrderedMap ℕ (Finset ℕ)) :=
  numa.nodes.map fun e => (e.1, coreMarks e.2.cores)

/-- No machine is on a CPU that was reserved before. -/
def Spared (numa numa' : HostShareNUMA) : Prop := marks numa' = marks numa ∧ numa'.AllCores Clear

/-- The first CPUs of the cores that are dedicated are not reserved. -/
def FirstOpen (n : HostShareNode) (nr : NodeRequest) : Prop :=
  ∀ e ∈ HostShareNode.targets n.cores nr.totalCpus, ∀ cpu ∈ e.2.cpus.head?,
    cpu.1 ∉ e.2.reservedCpus

/-- The monitor reports no machine on a reserved CPU, and a machine with dedicated cores gets cores
whose first CPU is not reserved. -/
def Careful (s : NumaShare) : Op → Prop
  | .setMonitorization ht => ∀ c ∈ ht.cores, (Core.new c.2.2 s.vmsThread false).Clear
  | .add sr =>
    ∀ t, sr.topology = some t → strToPinPolicy t.pinPolicy = .core →
      AtTurns fit (fun _ => FirstOpen) sr s.numa
  | _ => True

instance (c : Core) : Decidable c.Clear := inferInstanceAs (Decidable (∀ cpu ∈ c.cpus, _))

instance (n : HostShareNode) (nr : NodeRequest) : Decidable (FirstOpen n nr) :=
  inferInstanceAs (Decidable (∀ e ∈ HostShareNode.targets n.cores nr.totalCpus, _))

instance (s : NumaShare) (sr : NumaCapacity) : Decidable (Careful fit s (.add sr)) :=
  match htop : sr.topology with
  | none => isTrue fun t h => absurd (htop.symm.trans h) (by simp)
  | some t =>
    decidable_of_iff (strToPinPolicy t.pinPolicy = .core → AtTurns fit (fun _ => FirstOpen) sr s.numa)
      ⟨fun h t' h' => by rwa [← Option.some.inj (htop.symm.trans h')], fun h => h t htop⟩

instance (s : NumaShare) : (op : Op) → Decidable (Careful fit s op)
  | .setMonitorization ht => inferInstanceAs (Decidable (∀ c ∈ ht.cores, _))
  | .updateCapacity _ _ => isTrue trivial
  | .add sr => inferInstanceAs (Decidable (Careful fit s (.add sr)))
  | .del _ => isTrue trivial
  | .reload => isTrue trivial

/-! ## Cores without machines on reserved CPUs -/

/-- A sound core without machines on its reserved CPUs. -/
def Guarded (vt : ℕ) (c : Core) : Prop := Sound vt c ∧ c.Clear

theorem kept_guarded : Kept Guarded where
  reserve := fun vt c ids h => ⟨h.1.reserveCpus ids, h.2.reserveCpus h.1.formed.sorted ids⟩
  take := fun vt c vmid tc tcpus hvm h => ⟨h.1.takeThreads tc tcpus hvm, h.2.takeThreads tc tcpus⟩
  del := fun vt c ids vmid h => ⟨h.1.delCpus ids vmid, h.2.delCpus ids vmid⟩
  reload := by
    intro vt c id h
    rw [reloadCore_of_clear h.1 h.2]
    exact h

theorem keepsDedicated_of_firstOpen {vt vmid : ℕ} (hvm : vmid < 2 ^ 31) (dedicated : Bool)
    {n : HostShareNode} {nr : NodeRequest} (h : FirstOpen n nr) :
    KeepsDedicated (Guarded vt) vmid dedicated n nr := by
  rintro - e he ⟨hsound, -⟩
  have hded := (HostShareNode.mem_targets he).2
  exact ⟨hsound.dedicate hded hvm, clear_dedicate hsound.counted hded vmid (h e he)⟩

theorem allows_of_careful {s : NumaShare} (hs : s.numa.AllCores (Guarded s.vmsThread)) {op : Op}
    (h : Careful fit s op) : Allows fit Guarded s op := by
  cases op with
  | setMonitorization ht => exact fun c hc => ⟨sound_new c.2.2 s.vmsThread false, h c hc⟩
  | updateCapacity vthread cpuIds =>
    intro vt _
    refine hs.mono fun c hc => ⟨hc.1.setThread _, ?_⟩
    intro cpu hcpu hres
    rw [setCpuUsage_cpus] at hcpu
    rw [setCpuUsage_reservedCpus] at hres
    exact hc.2 cpu hcpu hres
  | add sr =>
    intro t htop t' tc nrs s' htop' hplan
    obtain rfl : t = t' := Option.some.inj (htop.symm.trans htop')
    by_cases hcore : strToPinPolicy t.pinPolicy = .core
    · exact inTurn_mono (fun n nr hopen => keepsDedicated_of_firstOpen sr.vmid.isLt _ hopen) nrs s'
        (h t htop hcore t tc nrs s' htop hplan)
    · refine inTurn_of_forall (fun n nr hded => ?_) _ _ _ _ nrs s'
      exact absurd (decide_eq_true_iff.mp hded) hcore
  | del sr => trivial
  | reload => trivial

theorem guarded_of_reach {s : NumaShare} (h : Reach (step fit) (Careful fit) start s) :
    s.numa.AllCores (Guarded s.vmsThread) := by
  refine h.inv (P := fun s => s.numa.AllCores (Guarded s.vmsThread)) ?_ ?_
  · exact ⟨List.Pairwise.nil, fun e he => absurd he List.not_mem_nil⟩
  · intro s op s' hs hok hstep
    exact allCores_step kept_guarded hs (allows_of_careful fit hs hok) hstep

/-! ## The marks during a placement -/

section Marks

variable {fit} {vmid tc hpszKb : ℕ} {dedicated : Bool} {numa : HostShareNUMA}

theorem coreMarks_cons (x : ℕ × Core) (cores : OrderedMap ℕ Core) :
    coreMarks (x :: cores) = (x.1, x.2.reservedCpus) :: coreMarks cores := rfl

theorem coreMarks_dedicateCores (cores : OrderedMap ℕ Core) : ∀ tcpus : ℕ,
    coreMarks (HostShareNode.dedicateCores vmid cores tcpus).1 = coreMarks cores := by
  induction cores with
  | nil => exact fun _ => rfl
  | cons x cores ih =>
    intro tcpus
    rw [HostShareNode.dedicateCores]
    split_ifs
    · rfl
    · dsimp only
      rw [coreMarks_cons, coreMarks_cons, ih, dedicate_reservedCpus]
    · dsimp only
      rw [coreMarks_cons, coreMarks_cons, ih]

theorem coreMarks_takeCores (cores : OrderedMap ℕ Core) : ∀ tcpus : ℕ,
    coreMarks (HostShareNode.takeCores vmid tc cores tcpus).1 = coreMarks cores := by
  induction cores with
  | nil => exact fun _ => rfl
  | cons x cores ih =>
    intro tcpus
    rw [HostShareNode.takeCores]
    split_ifs
    · rfl
    · dsimp only
      rw [coreMarks_cons, coreMarks_cons, ih]
      rfl

theorem marks_modify (id : ℤ) {f : HostShareNode → HostShareNode}
    (hf : ∀ n, coreMarks (f n).cores = coreMarks n.cores) :
    marks (numa.modify id f) = marks numa := by
  unfold marks HostShareNUMA.modify OrderedMap.modify
  dsimp only
  rw [List.map_map]
  refine List.map_congr_left fun e _ => ?_
  dsimp only [Function.comp]
  split_ifs
  · rw [hf]
  · rfl

theorem marks_takeMemory (nr : NodeRequest) : marks (takeMemory hpszKb nr numa).2 = marks numa := by
  have hmem : marks (numa.modify nr.memNodeId
      fun m => { m with memUsage := m.memUsage + nr.memory }) = marks numa := by
    refine marks_modify nr.memNodeId ?_
    exact fun _ => rfl
  unfold takeMemory
  split
  · rfl
  · dsimp only
    split_ifs
    · exact hmem
    · split
      · exact hmem
      · rw [← hmem]
        exact marks_modify _ fun _ => rfl

theorem marks_placeOne (nr : NodeRequest) :
    marks (placeOne vmid dedicated tc hpszKb nr numa).2 = marks numa := by
  unfold placeOne
  split
  · rfl
  · refine (marks_takeMemory nr).trans (marks_modify _ fun n => ?_)
    unfold HostShareNode.allocateCpus
    split_ifs
    · exact coreMarks_dedicateCores n.cores _
    · exact coreMarks_takeCores n.cores _

theorem marks_placeAll (nrs : List NodeRequest) : ∀ numa : HostShareNUMA,
    marks (placeAll vmid dedicated tc hpszKb nrs numa).2.2 = marks numa := by
  induction nrs with
  | nil => exact fun _ => rfl
  | cons nr nrs ih =>
    intro numa
    have hone : marks (placeOne vmid dedicated tc hpszKb nr numa).2 = marks numa :=
      marks_placeOne nr
    rw [placeAll]
    split
    · rename_i numa' hplace
      rw [hplace] at hone
      exact hone
    · rename_i nr' numa' hplace
      rw [hplace] at hone
      exact (ih numa').trans hone

theorem marks_clear {numa' : HostShareNUMA} (h : numa'.clearAllocated = numa.clearAllocated) :
    marks numa' = marks numa := by
  have hclear : ∀ numa : HostShareNUMA, marks numa.clearAllocated = marks numa := by
    intro numa
    unfold marks clearAllocated
    dsimp only
    rw [List.map_map]
    rfl
  rw [← hclear, h, hclear]

/-- **An addition leaves the marks.** -/
theorem marks_makeTopology {sr : NumaCapacity} {r : ℤ × NumaCapacity × HostShareNUMA}
    (h : numa.makeTopology fit sr true = some r) : marks r.2.2 = marks numa := by
  rcases makeTopology_cases h with ⟨rfl, -⟩ | rfl | ⟨t, -, ⟨-, nodeId, n, hwhole⟩ |
    ⟨numa', hplan, rfl⟩ | ⟨tc, nrs, numa', hplan, hplace⟩⟩
  · rfl
  · rfl
  · obtain ⟨cpuIds, -, rfl⟩ := Option.map_eq_some_iff.mp hwhole
    exact marks_modify nodeId fun _ => rfl
  · exact marks_clear (planTopology_clear hplan)
  · rw [allocateNodes_state hplace, marks_placeAll]
    exact marks_clear (planTopology_clear hplan)

end Marks

/-! ## Main results -/

/-- **While the first CPUs of dedicated cores are not reserved, every core is read back as it was
stored**, and an addition leaves the reserved CPUs without machines. -/
theorem stored_of_reach {s : NumaShare} (h : Reach (step fit) (Careful fit) start s) :
    (∀ e ∈ s.numa.nodes, ∀ c ∈ e.2.cores, reloadCore s.vmsThread c.1 c.2 = c.2) ∧
      ∀ sr r, Careful fit s (.add sr) → s.numa.makeTopology fit sr true = some r →
        Spared s.numa r.2.2 := by
  have hs := guarded_of_reach fit h
  refine ⟨fun e he c hc => ?_, fun sr r hok hrun => ⟨marks_makeTopology hrun, ?_⟩⟩
  · obtain ⟨hsound, hclear⟩ := hs.cores e he c hc
    exact reloadCore_of_clear hsound hclear c.1
  · have hstep : step fit s (.add sr) = some { s with numa := r.2.2 } := by
      rw [step, hrun]
      rfl
    exact (allCores_step kept_guarded hs (allows_of_careful fit hs hok) hstep).mono
      fun c hc => hc.2

/-- The second CPU of the core is reserved. -/
def secondReserved : Option NumaShare :=
  runChecked (step freeShare) (Careful freeShare) start
    [.setMonitorization report, .updateCapacity (some 2) (some "1".toList)]

theorem secondReserved_careful : (secondReserved.elim false fun s =>
    decide (Careful freeShare s (.add (machine "CORE".toList 1))) &&
      (s.numa.makeTopology freeShare (machine "CORE".toList 1) true).isSome) = true := by
  decide

theorem stored_secondReserved : ∃ s r,
    secondReserved = some s ∧
      s.numa.makeTopology freeShare (machine "CORE".toList 1) true = some r ∧
      (∀ e ∈ s.numa.nodes, ∀ c ∈ e.2.cores, reloadCore s.vmsThread c.1 c.2 = c.2) ∧
      Spared s.numa r.2.2 := by
  have hcheck := secondReserved_careful
  cases hs : secondReserved with
  | none =>
    rw [hs] at hcheck
    exact absurd hcheck (by decide)
  | some s =>
    rw [hs] at hcheck
    obtain ⟨hok, hrun⟩ := Bool.and_eq_true_iff.mp hcheck
    obtain ⟨r, hr⟩ := Option.isSome_iff_exists.mp hrun
    obtain ⟨hload, hadd⟩ := stored_of_reach freeShare (reach_of_runChecked _ hs)
    exact ⟨s, r, rfl, hr, hload, hadd _ r (of_decide_eq_true hok) hr⟩

/-- A machine with a dedicated core on a reserved CPU. -/
def firstReserved : Option NumaShare :=
  runEvents (step freeShare) start
    [.setMonitorization report, .updateCapacity (some 2) (some "0".toList),
      .add (machine "CORE".toList 1)]

theorem not_stored : ∃ s, Run (step freeShare) start s ∧ ∃ e ∈ s.numa.nodes, ∃ c ∈ e.2.cores,
    (∃ cpu ∈ c.2.cpus, cpu.1 ∈ c.2.reservedCpus ∧ cpu.2 = {7}) ∧
      reloadCore s.vmsThread c.1 c.2 ≠ c.2 := by
  have hcheck : (firstReserved.elim false fun s =>
      decide (∃ e ∈ s.numa.nodes, ∃ c ∈ e.2.cores,
        (∃ cpu ∈ c.2.cpus, cpu.1 ∈ c.2.reservedCpus ∧ cpu.2 = {7}) ∧
          (reloadCore s.vmsThread c.1 c.2).cpus ≠ c.2.cpus)) = true := by
    decide
  cases hs : firstReserved with
  | none =>
    rw [hs] at hcheck
    exact absurd hcheck (by decide)
  | some s =>
    rw [hs] at hcheck
    obtain ⟨e, he, c, hc, hcpu, hne⟩ := of_decide_eq_true hcheck
    exact ⟨s, run_of_runEvents _ hs, e, he, c, hc, hcpu, fun heq => hne (by rw [heq])⟩

end NumaStorage
