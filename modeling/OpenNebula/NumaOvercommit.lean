/-
# No CPU is overcommitted (`src/host/HostShareNUMA.cc`, `src/host/HostShare.cc`)

A CPU of a host may have `vms_thread` machines.  Additions find their CPUs in three ways, deletions
and reloads rewrite the sets of machines, the monitor adds cores and a new capacity changes
`vms_thread` itself.  In every run in which the monitor reports no overcommitted core and a new
`vms_thread` is not smaller than what is already placed, no CPU ever has more machines than it may have
(`fits_of_roomy`), whatever machines are pinned, dedicated, removed or reloaded in between.
-/
import OpenNebula.NumaPinning

open Transition

namespace NumaPinning

open Core HostShareNUMA NumaShare NumaText NumaDedicated

/-! ## The condition on the steps -/

/-- The monitor reports no core with too many machines, and a new `vms_thread` has room for those that
are placed. -/
def Roomy (s : NumaShare) : Op → Prop
  | .setMonitorization ht => ∀ c ∈ ht.cores, Fits s.vmsThread (Core.new c.2.2 s.vmsThread false)
  | .updateCapacity vthread _ =>
    ∀ vt ∈ vthread, ∀ e ∈ s.numa.nodes, ∀ c ∈ e.2.cores, Fits (if vt = 0 then 1 else vt) c.2
  | _ => True

instance (vt : ℕ) (c : Core) : Decidable (Fits vt c) :=
  inferInstanceAs (Decidable (∀ cpu ∈ c.cpus, _))

instance (s : NumaShare) : (op : Op) → Decidable (Roomy s op)
  | .setMonitorization ht => inferInstanceAs (Decidable (∀ c ∈ ht.cores, _))
  | .updateCapacity none _ => isTrue fun _ h => absurd h (by simp)
  | .updateCapacity (some vt) _ =>
    decidable_of_iff (∀ e ∈ s.numa.nodes, ∀ c ∈ e.2.cores, Fits (if vt = 0 then 1 else vt) c.2)
      ⟨fun h _ hvt => Option.some.inj hvt ▸ h, fun h => h vt rfl⟩
  | .add _ => isTrue trivial
  | .del _ => isTrue trivial
  | .reload => isTrue trivial

/-- A sound core without too many machines on a CPU. -/
def Fitted (vt : ℕ) (c : Core) : Prop := Sound vt c ∧ Fits vt c

theorem kept_fitted : Kept Fitted where
  reserve := by
    intro vt c ids h
    refine ⟨h.1.reserveCpus ids, ?_⟩
    intro cpu hcpu
    rw [reserveCpus_cpus] at hcpu
    exact h.2 cpu hcpu
  take := fun vt c vmid tc tcpus hvm h =>
    ⟨h.1.takeThreads tc tcpus hvm, h.2.takeThreads tc tcpus h.1.thread⟩
  del := fun vt c ids vmid h => ⟨h.1.delCpus ids vmid, h.2.delCpus ids vmid⟩
  reload := fun vt c id h => ⟨kept_sound.reload vt c id h.1, h.2.reloadCore h.1 id⟩

variable {F : Type*} [LinearOrder F] (fit : ℕ → ℕ → Bool → F)

/-- What an operation makes, dedicates or gives other numbers has room. -/
theorem allows_of_roomy {s : NumaShare} (hvt : 0 < s.vmsThread)
    (hs : s.numa.AllCores (Fitted s.vmsThread)) {op : Op} (h : Roomy s op) :
    Allows fit Fitted s op := by
  cases op with
  | setMonitorization ht => exact fun c hc => ⟨sound_new c.2.2 s.vmsThread false, h c hc⟩
  | updateCapacity vthread cpuIds =>
    intro vt hvthread
    have hfits := h vt (Option.mem_def.mpr hvthread)
    refine ⟨hs.sorted, ?_⟩
    intro e he c hc
    refine ⟨(hs.cores e he c hc).1.setThread _, ?_⟩
    intro cpu hcpu
    rw [setCpuUsage_cpus] at hcpu
    exact hfits e he c hc cpu hcpu
  | add sr =>
    intro t _ t' tc nrs numa' _ _
    refine inTurn_of_forall (fun n nr => ?_) _ _ _ _ _ _
    -- a core that can be dedicated has no machines yet
    rintro - e he ⟨hsound, -⟩
    have hded := (HostShareNode.mem_targets he).2
    exact ⟨hsound.dedicate hded sr.vmid.isLt, fits_dedicate hsound.counted hded hvt _⟩
  | del sr => trivial
  | reload => trivial

/-! ## Runs -/

/-- **No CPU is overcommitted.**  In every run whose monitor reports and new capacities have room for
the machines, every CPU of the host has at most `vms_thread` machines, and the counters of each core are
those of its sets of machines. -/
theorem fits_of_roomy {s : NumaShare} (h : Reach (step fit) Roomy start s) :
    s.numa.AllCores fun c => Fits s.vmsThread c ∧ c.Counted := by
  suffices hinv : s.numa.AllCores (Fitted s.vmsThread) from
    hinv.mono fun c hc => ⟨hc.2, hc.1.counted⟩
  induction h with
  | refl => exact ⟨List.Pairwise.nil, fun e he => absurd he List.not_mem_nil⟩
  | tail hrun hok hstep ih =>
    have hvt := (sound_of_run fit (hrun.mono fun _ _ _ => trivial)).1
    exact allCores_step kept_fitted ih (allows_of_roomy fit hvt ih hok) hstep

/-- A machine takes the two CPUs of a core while each may have two machines; then one is enough. -/
theorem fits_twoCpus : ∃ s, Reach (step freeShare) Roomy start s ∧
    s.numa.nodes.map (fun e => e.2.cores.map fun c => c.2.cpus.map fun cpu => cpu.2.card) =
      [[[1, 1]]] ∧ s.numa.AllCores fun c => Fits s.vmsThread c ∧ c.Counted := by
  have hrun : ((runChecked (step freeShare) Roomy start [.setMonitorization report,
      .updateCapacity (some 2) none, .add (machine "THREAD".toList 2),
      .updateCapacity (some 1) none]).map fun s =>
        s.numa.nodes.map fun e => e.2.cores.map fun c => c.2.cpus.map fun cpu => cpu.2.card) =
      some [[[1, 1]]] := by decide
  obtain ⟨s, hs, hcards⟩ := Option.map_eq_some_iff.mp hrun
  have hreach := reach_of_runChecked _ hs
  exact ⟨s, hreach, hcards, fits_of_roomy freeShare hreach⟩

end NumaPinning
