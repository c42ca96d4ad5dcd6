/-
# Dedicated cores are enough

For a machine with dedicated cores the test of the nodes counts cores that can be dedicated
(`free_dedicated_capacity`), less the CPUs of the virtual nodes that have been scheduled on the node.
So the virtual nodes on a node never ask for more cores than it has (`scheduleAll_load`), and as each
of them takes as many as it asks for (`dedicateCores_dedicables`), the next one finds enough
(`inTurn_of_load`).
-/
import OpenNebula.NumaRuns

namespace NumaDedicated

open Core HostShareNUMA

/-- The number of cores that can be dedicated. -/
def dedicables (n : HostShareNode) : ℕ := (n.cores.filter fun e => e.2.dedicable).length

/-- The CPUs that the requests on a node ask for. -/
def load (nrs : List NodeRequest) (p : ℤ) : ℕ :=
  (nrs.map fun nr => if nr.nodeId = p then nr.totalCpus else 0).sum

theorem load_cons (nr : NodeRequest) (nrs : List NodeRequest) (p : ℤ) :
    load (nr :: nrs) p = (if nr.nodeId = p then nr.totalCpus else 0) + load nrs p := by
  rw [load, load, List.map_cons, List.sum_cons]

/-! ## The schedule -/

/-- The CPUs that have been allotted on each node fit its cores. -/
def Within (s : HostShareNUMA) : Prop :=
  ∀ p n, s.nodes.find p = some n → n.allocatedCpus ≤ n.freeDedicated

theorem cpuFit_dedicated {n : HostShareNode} {totalCpus : ℕ}
    (h : (n.cpuFit totalCpus 1 true).isSome) (hwithin : n.allocatedCpus ≤ n.freeDedicated) :
    n.allocatedCpus + totalCpus ≤ n.freeDedicated ∧ n.freeDedicated < 2 ^ 32 := by
  have hlt : n.freeDedicated < 2 ^ 32 := Nat.mod_lt _ (by norm_num)
  unfold HostShareNode.cpuFit at h
  dsimp only at h
  rw [if_pos rfl, Nat.div_one, Nat.mul_one] at h
  split_ifs at h with hfit
  · refine ⟨?_, hlt⟩
    omega
  · exact absurd h (by decide)

section Schedule

variable {F : Type*} [LinearOrder F] {fit : ℕ → ℕ → Bool → F}
variable {hpszKb : ℕ} {pciNodes : List ℤ}

/-- **The virtual nodes that are scheduled on a node do not ask for more cores than it has.** -/
theorem scheduleAll_load (nrs : List NodeRequest) : ∀ (idx : ℕ) (s s' : HostShareNUMA)
    (nrs' : List NodeRequest), s.nodes.Sorted → Within s →
    scheduleAll fit 1 true hpszKb pciNodes true idx nrs s = some (true, nrs', s') →
      ∀ p n, s.nodes.find p = some n → load nrs' p + n.allocatedCpus ≤ n.freeDedicated := by
  induction nrs with
  | nil =>
    intro idx s s' nrs' _ hwithin h p n hn
    rw [scheduleAll] at h
    obtain ⟨-, h⟩ := Prod.mk.inj (Option.some.inj h)
    rw [← (Prod.mk.inj h).1, show load [] p = 0 from rfl, Nat.zero_add]
    exact hwithin p n hn
  | cons nr nrs ih =>
    intro idx s s' nrs' hsorted hwithin h p n hn
    rw [scheduleAll] at h
    split at h
    · exact absurd h (by simp)
    · exact absurd (Prod.mk.inj (Option.some.inj h)).1 (by decide)
    · rename_i nr' s1 hone
      obtain ⟨r, hr, heq⟩ := Option.map_eq_some_iff.mp h
      obtain ⟨hok, heq⟩ := Prod.mk.inj heq
      obtain ⟨rfl, -⟩ := Prod.mk.inj heq
      obtain ⟨-, hnr, rfl, m, hm, hfit⟩ := scheduleNodes_spec hsorted hone
      obtain ⟨hfits, hlt⟩ := cpuFit_dedicated hfit (hwithin _ m hm)
      have hallot : ∀ n, (allot nr hpszKb n).freeDedicated = n.freeDedicated := fun _ => rfl
      have hcount : (allot nr hpszKb m).allocatedCpus = m.allocatedCpus + nr.totalCpus :=
        Nat.mod_eq_of_lt (by omega)
      have hfind : ∀ q, (s.modify nr'.nodeId (allot nr hpszKb)).nodes.find q =
          (s.nodes.find q).map fun n => if q = nr'.nodeId then allot nr hpszKb n else n :=
        OrderedMap.find_modify _ s.nodes nr'.nodeId
      have hwithin' : Within (s.modify nr'.nodeId (allot nr hpszKb)) := by
        intro q n' hn'
        rw [hfind] at hn'
        obtain ⟨x, hx, rfl⟩ := Option.map_eq_some_iff.mp hn'
        split_ifs with hq
        · rw [hq] at hx
          obtain rfl := Option.some.inj (hm.symm.trans hx)
          rw [hcount, hallot]
          exact hfits
        · exact hwithin q x hx
      have hrest := ih (idx + 1) _ r.2.2 r.2.1 (sorted_modify hsorted _ _) hwithin'
        (by rw [hr, ← hok]) p
      have htotal : nr'.totalCpus = nr.totalCpus := by rw [hnr]
      rw [load_cons, htotal]
      rw [hfind, hn, Option.map_some] at hrest
      by_cases hp : p = nr'.nodeId
      · have hload := hrest _ rfl
        rw [hp] at hn
        obtain rfl := Option.some.inj (hm.symm.trans hn)
        rw [if_pos hp, hcount, hallot] at hload
        rw [if_pos hp.symm]
        omega
      · have hload := hrest _ rfl
        rw [if_neg hp] at hload
        rw [if_neg (Ne.symm hp)]
        omega

theorem tryThreads_load {nrs nrs' : List NodeRequest} {s s' : HostShareNUMA} {tc : ℕ}
    (hsorted : s.nodes.Sorted)
    (h : tryThreads fit true hpszKb pciNodes true [1] nrs s = some (some tc, nrs', s')) :
    ∀ p n, s.clearAllocated.nodes.find p = some n → load nrs' p ≤ n.freeDedicated := by
  have hcleared : s.clearAllocated.nodes.Sorted := List.pairwise_map.mpr hsorted
  have hwithin : Within s.clearAllocated := by
    intro p n hn
    rw [find_clearAllocated] at hn
    obtain ⟨m, -, rfl⟩ := Option.map_eq_some_iff.mp hn
    exact Nat.zero_le _
  rw [tryThreads] at h
  split at h
  · exact absurd h (by simp)
  · rename_i hall
    obtain ⟨-, h⟩ := Prod.mk.inj (Option.some.inj h)
    obtain ⟨rfl, -⟩ := Prod.mk.inj h
    intro p n hn
    have hload := scheduleAll_load nrs 0 _ _ _ hcleared hwithin hall p n hn
    omega
  · rw [tryThreads] at h
    exact absurd (Prod.mk.inj (Option.some.inj h)).1 (by simp)

/-- **A plan for dedicated cores** does not ask a node for more cores than it has. -/
theorem planTopology_load {sr : NumaCapacity} {t : Topology} {s s' : HostShareNUMA} {tc : ℤ}
    {nrs : List NodeRequest} (hcore : strToPinPolicy t.pinPolicy = .core) (hsorted : s.nodes.Sorted)
    (h : planTopology fit sr t true s = some (some (tc, nrs), s')) :
    ∀ p n, s'.nodes.find p = some n → load nrs p ≤ dedicables n := by
  have hclear : s'.clearAllocated = s.clearAllocated := planTopology_clear h
  rcases planTopology_cases h with h | ⟨pciNodes, tcs, tried, nrs', s1, htcs, htry, h⟩
  · exact absurd (Prod.mk.inj h).1 (by simp)
  · obtain ⟨hplan, rfl⟩ := Prod.mk.inj h
    cases tried with
    | some tc' =>
      obtain ⟨-, rfl⟩ := Prod.mk.inj (Option.some.inj hplan)
      rw [htcs hcore, decide_eq_true hcore] at htry
      intro p n hn
      have hfind : s.clearAllocated.nodes.find p = some n.clearAllocated := by
        rw [← hclear, find_clearAllocated, hn]
        rfl
      have hload := tryThreads_load hsorted htry p _ hfind
      exact hload.trans (Nat.mod_le _ _)
    | none =>
      dsimp only at hplan
      split_ifs at hplan
      obtain ⟨-, rfl⟩ := Prod.mk.inj (Option.some.inj hplan)
      exact fun p n _ => Nat.zero_le _

end Schedule

/-! ## The placement -/

section Place

variable {vmid tc hpszKb : ℕ} {s : HostShareNUMA}

/-- The cores that are left after some have been dedicated. -/
theorem dedicateCores_dedicables (cores : OrderedMap ℕ Core) : ∀ tcpus : ℕ,
    ((HostShareNode.dedicateCores vmid cores tcpus).1.filter fun e => e.2.dedicable).length =
      (cores.filter fun e => e.2.dedicable).length - tcpus := by
  induction cores with
  | nil => exact fun tcpus => (Nat.zero_sub tcpus).symm
  | cons x cores ih =>
    intro tcpus
    rw [HostShareNode.dedicateCores]
    by_cases hzero : tcpus = 0
    · rw [if_pos hzero, hzero, Nat.sub_zero]
    · rw [if_neg hzero]
      by_cases hded : x.2.dedicable = true
      · rw [if_pos hded]
        dsimp only
        rw [List.filter_cons_of_neg (by rw [dedicable_dedicate hded]; decide), ih,
          List.filter_cons_of_pos (p := fun e : ℕ × Core => e.2.dedicable) hded, List.length_cons]
        omega
      · rw [if_neg hded]
        dsimp only
        rw [List.filter_cons_of_neg (p := fun e : ℕ × Core => e.2.dedicable) hded, ih,
          List.filter_cons_of_neg (p := fun e : ℕ × Core => e.2.dedicable) hded]

theorem modify_cores {s : HostShareNUMA} {p' p : ℤ} {f : HostShareNode → HostShareNode}
    (hf : ∀ n, (f n).cores = n.cores) {n' : HostShareNode}
    (h : (s.modify p' f).nodes.find p = some n') : ∃ n, s.nodes.find p = some n ∧ n'.cores = n.cores := by
  unfold HostShareNUMA.modify at h
  dsimp only at h
  rw [OrderedMap.find_modify] at h
  obtain ⟨n, hn, rfl⟩ := Option.map_eq_some_iff.mp h
  refine ⟨n, hn, ?_⟩
  split_ifs
  · exact hf n
  · rfl

theorem takeMemory_cores {nr : NodeRequest} {p : ℤ} {n' : HostShareNode}
    (h : (takeMemory hpszKb nr s).2.nodes.find p = some n') :
    ∃ n, s.nodes.find p = some n ∧ n'.cores = n.cores := by
  have hmem : ∀ {n' : HostShareNode}, (s.modify nr.memNodeId fun m =>
      { m with memUsage := m.memUsage + nr.memory }).nodes.find p = some n' →
      ∃ n, s.nodes.find p = some n ∧ n'.cores = n.cores := by
    intro n'
    refine modify_cores ?_
    exact fun _ => rfl
  unfold takeMemory at h
  split at h
  · exact ⟨n', h, rfl⟩
  · dsimp only at h
    split_ifs at h
    · exact hmem h
    · split at h
      · exact hmem h
      · obtain ⟨m, hm, hcores⟩ := modify_cores (by exact fun _ => rfl) h
        obtain ⟨n, hn, hcores'⟩ := hmem hm
        exact ⟨n, hn, hcores.trans hcores'⟩

/-- A node has as many cores less as the virtual node has taken. -/
theorem placeOne_dedicables {nr : NodeRequest} {p : ℤ} {n' : HostShareNode}
    (h : (placeOne vmid true tc hpszKb nr s).2.nodes.find p = some n') :
    ∃ n, s.nodes.find p = some n ∧
      dedicables n' = dedicables n - if nr.nodeId = p then nr.totalCpus else 0 := by
  unfold placeOne at h
  split at h
  · rename_i hnone
    have hp : nr.nodeId ≠ p := by
      rintro rfl
      rw [hnone] at h
      exact absurd h (by simp)
    exact ⟨n', h, by rw [if_neg hp, Nat.sub_zero]⟩
  · obtain ⟨m, hm, hcores⟩ := takeMemory_cores h
    unfold HostShareNUMA.modify at hm
    dsimp only at hm
    rw [OrderedMap.find_modify] at hm
    obtain ⟨n, hn, rfl⟩ := Option.map_eq_some_iff.mp hm
    refine ⟨n, hn, ?_⟩
    unfold dedicables
    rw [hcores]
    by_cases hp : p = nr.nodeId
    · rw [if_pos hp, if_pos hp.symm]
      exact dedicateCores_dedicables n.cores nr.totalCpus
    · rw [if_neg hp, if_neg (Ne.symm hp), Nat.sub_zero]

/-- **Each virtual node finds the cores that it asks for.** -/
theorem inTurn_of_load (nrs : List NodeRequest) : ∀ s : HostShareNUMA,
    (∀ p n, s.nodes.find p = some n → load nrs p ≤ dedicables n) →
      InTurn (fun n nr => nr.totalCpus ≤ dedicables n) vmid true tc hpszKb nrs s := by
  induction nrs with
  | nil => exact fun _ _ => trivial
  | cons nr nrs ih =>
    intro s h
    refine ⟨fun n hn => ?_, ih _ fun p n' hn' => ?_⟩
    · have hload := h _ n hn
      rw [load_cons, if_pos rfl] at hload
      omega
    · obtain ⟨n, hn, hcount⟩ := placeOne_dedicables hn'
      have hload := h p n hn
      rw [load_cons] at hload
      omega

end Place

end NumaDedicated
