/-
# Pinned virtual nodes

A pinned machine gets a list of CPUs for each of its virtual nodes.  The test that a node has room
counts the free places of a core in groups of threads (`free_capacity`); the allocation visits each
CPU of a core once (`allocate_ht_cpus`), and when it finds less than it needs, `make_topology` goes on
as if it had found them.  So the lists are exact if and only if the cores of the node have enough CPUs
with a free place at the turn of each virtual node (`exact_iff_of_run`): a core with two CPUs and two
places on each counts for four threads and gives two (`not_exact`).
-/
import OpenNebula.NumaDedicated

open Transition

namespace NumaPinning

open Core HostShareNUMA NumaShare NumaText NumaDedicated

/-! ## The CPUs of one virtual node -/

/-- The CPUs that the cores of a node offer, each in groups of `tc` and once. -/
def offered (tc : ℕ) (n : HostShareNode) : ℕ := (n.cores.map fun e => e.2.offer tc).sum

/-- The CPUs that a node gives to a virtual node at most. -/
def capacity (dedicated : Bool) (tc : ℕ) (n : HostShareNode) : ℕ :=
  if dedicated then dedicables n else offered tc n

/-- The number of times that a machine is on the CPU of a number. -/
def nodePins (cores : OrderedMap ℕ Core) (id vm : ℕ) : ℕ :=
  (cores.map fun e => pinsOn e.2.cpus id vm).sum

theorem nodePins_cons (x : ℕ × Core) (cores : OrderedMap ℕ Core) (id vm : ℕ) :
    nodePins (x :: cores) id vm = pinsOn x.2.cpus id vm + nodePins cores id vm := by
  rw [nodePins, nodePins, List.map_cons, List.sum_cons]

section Cores

variable (vmid tc : ℕ)

/-- What is missing after a walk over the cores. -/
theorem takeCores_left (cores : OrderedMap ℕ Core) : ∀ tcpus : ℕ,
    (HostShareNode.takeCores vmid tc cores tcpus).2.2 =
      tcpus - (cores.map fun e => e.2.offer tc).sum := by
  induction cores with
  | nil => exact fun _ => rfl
  | cons x cores ih =>
    intro tcpus
    rw [HostShareNode.takeCores, List.map_cons, List.sum_cons]
    split_ifs with hzero
    · dsimp only
      omega
    · dsimp only
      rw [ih, takeThreads_length]
      omega

theorem takeCores_length (cores : OrderedMap ℕ Core) : ∀ tcpus : ℕ,
    (HostShareNode.takeCores vmid tc cores tcpus).2.1.length +
      (HostShareNode.takeCores vmid tc cores tcpus).2.2 = tcpus := by
  induction cores with
  | nil => exact fun tcpus => Nat.zero_add tcpus
  | cons x cores ih =>
    intro tcpus
    rw [HostShareNode.takeCores]
    split_ifs with hzero
    · exact hzero.symm
    · have hlength := takeThreads_length (c := x.2) vmid tc tcpus
      have hrest := ih (tcpus - (x.2.takeThreads vmid tc tcpus).2.length)
      dsimp only
      rw [List.length_append]
      omega

theorem takeCores_pins (id vm : ℕ) (cores : OrderedMap ℕ Core) : ∀ tcpus : ℕ,
    nodePins (HostShareNode.takeCores vmid tc cores tcpus).1 id vm =
      nodePins cores id vm +
        if vm = vmid then (HostShareNode.takeCores vmid tc cores tcpus).2.1.count id else 0 := by
  induction cores with
  | nil =>
    intro tcpus
    rw [HostShareNode.takeCores]
    simp
  | cons x cores ih =>
    intro tcpus
    rw [HostShareNode.takeCores]
    by_cases hzero : tcpus = 0
    · rw [if_pos hzero]
      simp
    · have hcore : pinsOn (x.2.takeThreads vmid tc tcpus).1.cpus id vm = pinsOn x.2.cpus id vm +
          if vm = vmid then (x.2.takeThreads vmid tc tcpus).2.count id else 0 :=
        takeCpus_pins vmid x.2.vmsThread x.2.reservedCpus x.2.cpus id vm _ _
      rw [if_neg hzero]
      dsimp only
      rw [nodePins_cons, nodePins_cons, hcore, ih, List.count_append]
      split_ifs
      all_goals omega

theorem takeCores_mem (id : ℕ) (cores : OrderedMap ℕ Core) : ∀ tcpus : ℕ,
    id ∈ (HostShareNode.takeCores vmid tc cores tcpus).2.1 → ∃ e ∈ cores, id ∈ e.2.cpus.keys := by
  induction cores with
  | nil => exact fun _ hid => absurd hid List.not_mem_nil
  | cons x cores ih =>
    intro tcpus hid
    rw [HostShareNode.takeCores] at hid
    split_ifs at hid
    · exact absurd hid List.not_mem_nil
    · rcases List.mem_append.mp hid with hid | hid
      · exact ⟨x, List.mem_cons_self, takeCpus_mem _ _ _ _ _ _ hid⟩
      · obtain ⟨e, he, hkey⟩ := ih _ hid
        exact ⟨e, List.mem_cons_of_mem _ he, hkey⟩

theorem dedicateCores_left (cores : OrderedMap ℕ Core) : ∀ tcpus : ℕ,
    (HostShareNode.dedicateCores vmid cores tcpus).2.2 =
      tcpus - (cores.filter fun e => e.2.dedicable).length := by
  induction cores with
  | nil => exact fun _ => rfl
  | cons x cores ih =>
    intro tcpus
    rw [HostShareNode.dedicateCores, List.filter_cons]
    split_ifs with hzero hded
    · dsimp only
      omega
    · dsimp only
      omega
    · dsimp only
      rw [ih, List.length_cons]
      omega
    · exact ih tcpus

theorem dedicateCores_length (cores : OrderedMap ℕ Core) : ∀ tcpus : ℕ,
    (HostShareNode.dedicateCores vmid cores tcpus).2.1.length +
      (HostShareNode.dedicateCores vmid cores tcpus).2.2 = tcpus := by
  induction cores with
  | nil => exact fun tcpus => Nat.zero_add tcpus
  | cons x cores ih =>
    intro tcpus
    rw [HostShareNode.dedicateCores]
    split_ifs with hzero hded
    · exact hzero.symm
    · have hone := length_take_keys hded
      have hrest := ih (tcpus - 1)
      dsimp only
      rw [List.length_append, hone]
      omega
    · exact ih tcpus

theorem dedicateCores_pins (id vm : ℕ) (cores : OrderedMap ℕ Core) : ∀ tcpus : ℕ,
    nodePins (HostShareNode.dedicateCores vmid cores tcpus).1 id vm =
      nodePins cores id vm +
        if vm = vmid then (HostShareNode.dedicateCores vmid cores tcpus).2.1.count id else 0 := by
  induction cores with
  | nil =>
    intro tcpus
    rw [HostShareNode.dedicateCores]
    simp
  | cons x cores ih =>
    intro tcpus
    rw [HostShareNode.dedicateCores]
    by_cases hzero : tcpus = 0
    · rw [if_pos hzero]
      simp
    · rw [if_neg hzero]
      by_cases hded : x.2.dedicable = true
      · rw [if_pos hded]
        dsimp only
        rw [nodePins_cons, nodePins_cons, pinsOn_dedicate, ih, List.count_append]
        split_ifs
        all_goals omega
      · rw [if_neg hded]
        dsimp only
        rw [nodePins_cons, nodePins_cons, ih]
        omega

theorem dedicateCores_mem (id : ℕ) (cores : OrderedMap ℕ Core) : ∀ tcpus : ℕ,
    id ∈ (HostShareNode.dedicateCores vmid cores tcpus).2.1 →
      ∃ e ∈ cores, id ∈ e.2.cpus.keys := by
  induction cores with
  | nil => exact fun _ hid => absurd hid List.not_mem_nil
  | cons x cores ih =>
    intro tcpus hid
    have hrest : ∀ t, id ∈ (HostShareNode.dedicateCores vmid cores t).2.1 →
        ∃ e ∈ x :: cores, id ∈ e.2.cpus.keys := by
      intro t hid
      obtain ⟨e, he, hkey⟩ := ih t hid
      exact ⟨e, List.mem_cons_of_mem _ he, hkey⟩
    rw [HostShareNode.dedicateCores] at hid
    split_ifs at hid
    · exact absurd hid List.not_mem_nil
    · rcases List.mem_append.mp hid with hid | hid
      · exact ⟨x, List.mem_cons_self, List.mem_of_mem_take hid⟩
      · exact hrest _ hid
    · exact hrest _ hid

end Cores

/-- A list that is given when nothing is missing. -/
theorem list_of_left {ids : List ℕ} {left tcpus : ℕ} (cap : ℕ) (hpos : 0 < tcpus) (hleft : left = tcpus - cap)
    (hlength : ids.length + left = tcpus) :
    (((if left = 0 then some ids else none).getD []).length = tcpus ↔ tcpus ≤ cap) ∧
      (∀ id ∈ (if left = 0 then some ids else none).getD [], id ∈ ids) ∧
      (tcpus ≤ cap → (if left = 0 then some ids else none).getD [] = ids) := by
  split_ifs with hzero
  · rw [Option.getD_some]
    exact ⟨⟨fun _ => by omega, fun _ => by omega⟩, fun _ hid => hid, fun _ => rfl⟩
  · rw [Option.getD_none, List.length_nil]
    exact ⟨⟨fun h => by omega, fun h => by omega⟩, fun _ hid => absurd hid List.not_mem_nil,
      fun h => by omega⟩

/-- **The allocation of CPUs**: the list is as long as it should be when the node has the CPUs, and
empty when it has not; each entry adds the machine to a CPU. -/
theorem allocateCpus_spec (vmid : ℕ) (dedicated : Bool) (tc tcpus : ℕ) {vt : ℕ} {n : HostShareNode}
    (hsound : n.AllCores (Sound vt)) (hpos : 0 < tcpus) :
    ∃ ids, (n.allocateCpus vmid dedicated tc tcpus).2.getD [] = ids ∧
      (ids.length = tcpus ↔ tcpus ≤ capacity dedicated tc n) ∧ (∀ id ∈ ids, id < 2 ^ 32) ∧
      (tcpus ≤ capacity dedicated tc n → ∀ id vm,
        nodePins (n.allocateCpus vmid dedicated tc tcpus).1.cores id vm =
          nodePins n.cores id vm + if vm = vmid then ids.count id else 0) := by
  have hkeys : ∀ id, (∃ e ∈ n.cores, id ∈ e.2.cpus.keys) → id < 2 ^ 32 := by
    rintro id ⟨e, he, hkey⟩
    obtain ⟨cpu, hcpu, rfl⟩ := List.mem_map.mp hkey
    exact (hsound e he).formed.ids cpu hcpu
  refine ⟨_, rfl, ?_⟩
  cases dedicated with
  | true =>
    obtain ⟨hlen, hmem, hlist⟩ := list_of_left (dedicables n) hpos
      (dedicateCores_left vmid n.cores tcpus) (dedicateCores_length vmid n.cores tcpus)
    refine ⟨hlen, fun id hid => hkeys id (dedicateCores_mem vmid id _ _ (hmem id hid)), ?_⟩
    intro hcap id vm
    have hpins := dedicateCores_pins vmid id vm n.cores tcpus
    rw [← hlist hcap] at hpins
    exact hpins
  | false =>
    obtain ⟨hlen, hmem, hlist⟩ := list_of_left (offered tc n) hpos
      (takeCores_left vmid tc n.cores tcpus) (takeCores_length vmid tc n.cores tcpus)
    refine ⟨hlen, fun id hid => hkeys id (takeCores_mem vmid tc id _ _ (hmem id hid)), ?_⟩
    intro hcap id vm
    have hpins := takeCores_pins vmid tc id vm n.cores tcpus
    rw [← hlist hcap] at hpins
    exact hpins

/-! ## The virtual nodes one after the other -/

/-- The number of times that a machine is on a CPU of a node. -/
def pins (numa : HostShareNUMA) (p : ℤ) (id vm : ℕ) : ℕ :=
  ((numa.nodes.find p).map fun n => nodePins n.cores id vm).getD 0

theorem pins_modify (numa : HostShareNUMA) (p' : ℤ) (f : HostShareNode → HostShareNode) (p : ℤ)
    (id vm : ℕ) : pins (numa.modify p' f) p id vm =
      ((numa.nodes.find p).map fun n => nodePins (if p = p' then f n else n).cores id vm).getD 0 := by
  unfold pins HostShareNUMA.modify
  dsimp only
  rw [OrderedMap.find_modify, Option.map_map]
  rfl

/-- Other data of a node is changed. -/
theorem pins_modify_other {numa : HostShareNUMA} {p' : ℤ} {f : HostShareNode → HostShareNode}
    (hf : ∀ n, (f n).cores = n.cores) (p : ℤ) (id vm : ℕ) :
    pins (numa.modify p' f) p id vm = pins numa p id vm := by
  have hcores : ∀ n : HostShareNode, (if p = p' then f n else n).cores = n.cores := by
    intro n
    split_ifs
    · exact hf n
    · rfl
  rw [pins_modify]
  simp only [hcores]
  rfl

theorem pins_clear {numa numa' : HostShareNUMA} (h : numa'.clearAllocated = numa.clearAllocated)
    (p : ℤ) (id vm : ℕ) : pins numa' p id vm = pins numa p id vm := by
  have hclear : ∀ numa : HostShareNUMA, pins numa.clearAllocated p id vm = pins numa p id vm := by
    intro numa
    unfold pins
    rw [find_clearAllocated, Option.map_map]
    rfl
  rw [← hclear, h, hclear]

/-- The nodes of a request stay there when other data of the nodes is changed. -/
theorem Placed.modify {hpszKb : ℕ} {numa : HostShareNUMA} {nr : NodeRequest}
    (h : Placed hpszKb numa nr) (p : ℤ) {f : HostShareNode → HostShareNode}
    (hf : ∀ n, (f n).pages.keys = n.pages.keys) : Placed hpszKb (numa.modify p f) nr := by
  obtain ⟨⟨n, hn⟩, m, hm, hpage⟩ := h
  unfold Placed HostShareNUMA.modify
  dsimp only
  rw [OrderedMap.find_modify, OrderedMap.find_modify, hn, hm]
  refine ⟨⟨_, rfl⟩, _, rfl, ?_⟩
  split_ifs
  · rwa [hf]
  · exact hpage

section Place

variable {vmid tc hpszKb : ℕ} {dedicated : Bool} {numa : HostShareNUMA} {nr : NodeRequest}

/-- The memory of a request whose nodes are there is taken. -/
theorem takeMemory_spec (h : Placed hpszKb numa nr) :
    (takeMemory hpszKb nr numa).1 = true ∧
      (∀ p id vm, pins (takeMemory hpszKb nr numa).2 p id vm = pins numa p id vm) ∧
      ∀ nr', Placed hpszKb numa nr' → Placed hpszKb (takeMemory hpszKb nr numa).2 nr' := by
  obtain ⟨-, m, hm, hpage⟩ := h
  have hpins : ∀ (p : ℤ) (id vm : ℕ), pins (numa.modify nr.memNodeId
      fun m => { m with memUsage := m.memUsage + nr.memory }) p id vm = pins numa p id vm := by
    intro p id vm
    refine pins_modify_other ?_ p id vm
    exact fun _ => rfl
  have hother := fun (nr' : NodeRequest) (h' : Placed hpszKb numa nr') =>
    Placed.modify h' nr.memNodeId (f := fun m => { m with memUsage := m.memUsage + nr.memory })
      fun _ => rfl
  unfold takeMemory
  rw [hm]
  dsimp only
  by_cases hzero : hpszKb = 0
  · rw [if_pos hzero]
    exact ⟨rfl, hpins, hother⟩
  · obtain ⟨page, hpage⟩ := OrderedMap.find_isSome (hpage.resolve_left hzero)
    rw [if_neg hzero, hpage]
    dsimp only
    refine ⟨rfl, fun p id vm => ?_, fun nr' h' => ?_⟩
    · rw [← hpins]
      refine pins_modify_other ?_ p id vm
      exact fun _ => rfl
    · refine Placed.modify (hother nr' h') nr.memNodeId ?_
      intro n
      dsimp only
      rw [OrderedMap.keys_modify]

/-- A request that has been served gets CPUs that can be written. -/
def Served (nr nr' : NodeRequest) : Prop :=
  nr' = { nr with cpuIds := nr'.cpuIds } ∧ ∀ id ∈ nr'.cpuIds, id < 2 ^ 32

variable (vmid tc dedicated) in
/-- **One virtual node**: its memory is taken, and it gets as many CPUs as it asks for if and only if
its node has them. -/
theorem placeOne_spec {vt : ℕ} (hsound : numa.AllCores (Sound vt)) (hpos : 0 < nr.totalCpus)
    (hplaced : Placed hpszKb numa nr) :
    ∃ nr', (placeOne vmid dedicated tc hpszKb nr numa).1 = some nr' ∧ Served nr nr' ∧
      (nr'.cpuIds.length = nr.totalCpus ↔
        ∀ n, numa.nodes.find nr.nodeId = some n → nr.totalCpus ≤ capacity dedicated tc n) ∧
      (nr'.cpuIds.length = nr.totalCpus → ∀ p id vm,
        pins (placeOne vmid dedicated tc hpszKb nr numa).2 p id vm = pins numa p id vm +
          if vm = vmid ∧ p = nr.nodeId then nr'.cpuIds.count id else 0) ∧
      ∀ other, Placed hpszKb numa other →
        Placed hpszKb (placeOne vmid dedicated tc hpszKb nr numa).2 other := by
  obtain ⟨n, hn⟩ := hplaced.1
  obtain ⟨ids, hids, hlength, hbound, hpins⟩ := allocateCpus_spec vmid dedicated tc nr.totalCpus
    (hsound.cores _ (OrderedMap.mem_of_find hn)) hpos
  have hpages : ∀ n : HostShareNode,
      (n.allocateCpus vmid dedicated tc nr.totalCpus).1.pages.keys = n.pages.keys := by
    intro n
    unfold HostShareNode.allocateCpus
    split_ifs <;> rfl
  have hmove := fun other (h : Placed hpszKb numa other) => Placed.modify h nr.nodeId hpages
  obtain ⟨hok, hmemPins, hmemOther⟩ := takeMemory_spec (hmove nr hplaced)
  have hiff : ids.length = nr.totalCpus ↔
      ∀ m, numa.nodes.find nr.nodeId = some m → nr.totalCpus ≤ capacity dedicated tc m := by
    rw [hlength]
    exact ⟨fun h m hm => by rwa [← Option.some.inj (hn.symm.trans hm)], fun h => h n hn⟩
  unfold placeOne
  rw [hn] at hiff ⊢
  dsimp only
  rw [if_pos hok, hids]
  refine ⟨_, rfl, ⟨rfl, hbound⟩, hiff, ?_, fun other h => hmemOther other (hmove other h)⟩
  intro hlen p id vm
  rw [hmemPins, pins_modify, pins]
  by_cases hp : p = nr.nodeId
  · rw [hp, hn, Option.map_some, Option.map_some, Option.getD_some, Option.getD_some, if_pos rfl,
      hpins (hlength.mp hlen)]
    simp
  · simp [hp]

/-- The entries for a CPU in the lists of the requests on a node. -/
def entries (nrs : List NodeRequest) (p : ℤ) (id : ℕ) : ℕ :=
  (nrs.map fun nr => if p = nr.nodeId then nr.cpuIds.count id else 0).sum

/-- A request has as many CPUs as it asks for. -/
def Full (nr : NodeRequest) : Prop := nr.cpuIds.length = nr.totalCpus

variable (tc hpszKb dedicated) in
theorem sound_placeOne {vt : ℕ} (hvm : vmid < 2 ^ 31) (nr : NodeRequest)
    (hsound : numa.AllCores (Sound vt)) :
    (placeOne vmid dedicated tc hpszKb nr numa).2.AllCores (Sound vt) := by
  refine allCores_placeOne hpszKb (fun c tcpus hc => hc.takeThreads tc tcpus hvm) ?_ hsound
  rintro n hn - e he hc
  exact hc.dedicate (HostShareNode.mem_targets he).2 hvm

variable (tc dedicated) in
/-- **All the virtual nodes**: their lists are full if and only if the nodes have the CPUs in turn. -/
theorem placeAll_spec {vt : ℕ} (hvm : vmid < 2 ^ 31) (nrs : List NodeRequest) :
    ∀ numa : HostShareNUMA, numa.AllCores (Sound vt) →
      (∀ nr ∈ nrs, 0 < nr.totalCpus ∧ Placed hpszKb numa nr) →
      ∃ done, (placeAll vmid dedicated tc hpszKb nrs numa).1 = true ∧
        (placeAll vmid dedicated tc hpszKb nrs numa).2.1 = done ∧ List.Forall₂ Served nrs done ∧
        ((∀ nr ∈ done, Full nr) ↔
          InTurn (fun n nr => nr.totalCpus ≤ capacity dedicated tc n) vmid dedicated tc hpszKb nrs
            numa) ∧
        ((∀ nr ∈ done, Full nr) → ∀ p id vm,
          pins (placeAll vmid dedicated tc hpszKb nrs numa).2.2 p id vm = pins numa p id vm +
            if vm = vmid then entries done p id else 0) := by
  induction nrs with
  | nil =>
    intro numa _ _
    refine ⟨[], rfl, rfl, List.Forall₂.nil, ⟨fun _ => trivial, fun _ _ h => absurd h List.not_mem_nil⟩,
      fun _ p id vm => ?_⟩
    rw [placeAll, entries]
    simp
  | cons nr nrs ih =>
    intro numa hsound hall
    obtain ⟨⟨hpos, hplaced⟩, hrest⟩ := List.forall_mem_cons.mp hall
    obtain ⟨nr', hok, hserved, hfull, hpins, hother⟩ :=
      placeOne_spec vmid tc dedicated hsound hpos hplaced
    have hsound' := sound_placeOne tc hpszKb dedicated hvm nr hsound
    obtain ⟨done, hdone, hlist, hforall, hiff, hrestPins⟩ := ih _ hsound' fun x hx =>
      ⟨(hrest x hx).1, hother x (hrest x hx).2⟩
    have htotal : nr'.totalCpus = nr.totalCpus := by rw [hserved.1]
    have hnode : nr'.nodeId = nr.nodeId := by rw [hserved.1]
    have heq : placeAll vmid dedicated tc hpszKb (nr :: nrs) numa =
        (true, nr' :: done, (placeAll vmid dedicated tc hpszKb nrs
          (placeOne vmid dedicated tc hpszKb nr numa).2).2.2) := by
      rw [placeAll]
      split
      · rename_i numa' hplace
        rw [hplace] at hok
        exact absurd hok (by simp)
      · rename_i nr'' numa' hplace
        rw [hplace] at hok hdone hlist ⊢
        obtain rfl := Option.some.inj hok
        dsimp only at hdone hlist ⊢
        rw [hdone, hlist]
    rw [heq]
    refine ⟨nr' :: done, rfl, rfl, List.Forall₂.cons hserved hforall, ?_, ?_⟩
    · rw [List.forall_mem_cons, hiff, Full, htotal, hfull]
      rfl
    · intro hfulls p id vm
      obtain ⟨hhead, htail⟩ := List.forall_mem_cons.mp hfulls
      rw [Full, htotal] at hhead
      dsimp only
      rw [hrestPins htail, hpins hhead, entries, entries, List.map_cons, List.sum_cons, hnode]
      by_cases hvm : vm = vmid
      · simp only [hvm, true_and, if_true]
        omega
      · simp [hvm]

end Place

/-! ## The lists of the virtual nodes -/

/-- The list of CPUs of a virtual node. -/
def cpuIds (v : VmNode) : List ℕ := splitIds (v.cpus.getD [])

/-- The entries for a CPU in the lists of the virtual nodes on a node. -/
def listed (vs : List VmNode) (p : ℤ) (id : ℕ) : ℕ :=
  (vs.map fun v => if 0 < v.totalCpus ∧ v.nodeId = some p then (cpuIds v).count id else 0).sum

/-- A virtual node with `TOTAL_CPUS = n` has a list of `n` CPUs. -/
def Listed (v v' : VmNode) : Prop :=
  v'.totalCpus = v.totalCpus ∧ (0 < v.totalCpus → (cpuIds v').length = v.totalCpus) ∧
    (v.totalCpus = 0 → v' = v)

/-- A virtual node with CPUs has memory, as the parser of topologies asks for. -/
def HasMemory (v : VmNode) : Prop := 0 < v.totalCpus → 0 < v.memory.getD 0

/-- A request that can be written into its virtual node. -/
def Answers (nr nr' : NodeRequest) : Prop :=
  nr'.totalCpus = nr.totalCpus ∧ nr'.memory = nr.memory ∧ ∀ id ∈ nr'.cpuIds, id < 2 ^ 32

theorem nodeRequests_cons (v : VmNode) (vs : List VmNode) :
    nodeRequests (v :: vs) =
      if v.isRequest then ⟨v.totalCpus, v.memory.getD 0, -1, -1, []⟩ :: nodeRequests vs
      else nodeRequests vs := by
  rw [nodeRequests, List.filter_cons]
  split_ifs <;> rfl

theorem isRequest_iff {v : VmNode} (h : HasMemory v) : v.isRequest = true ↔ 0 < v.totalCpus := by
  unfold VmNode.isRequest
  rw [Bool.and_eq_true, decide_eq_true_eq, decide_eq_true_eq]
  exact ⟨fun hv => hv.1, fun hv => ⟨hv, h hv⟩⟩

theorem cpuIds_assign {v : VmNode} {nr : NodeRequest} (hpos : 0 < nr.totalCpus)
    (hids : ∀ id ∈ nr.cpuIds, id < 2 ^ 32) : cpuIds (v.assign nr) = nr.cpuIds := by
  unfold cpuIds VmNode.assign
  dsimp only
  rw [Option.getD_some, if_neg (by omega), splitIds_idsText hids]

/-- **The lists are written back**: those of the virtual nodes are full if and only if those of the
requests are, and they have the same entries. -/
theorem writeBack_spec (vs : List VmNode) : ∀ done : List NodeRequest, (∀ v ∈ vs, HasMemory v) →
    List.Forall₂ Answers (nodeRequests vs) done →
      (List.Forall₂ Listed vs (writeBack vs done) ↔ ∀ nr ∈ done, Full nr) ∧
        ∀ p id, listed (writeBack vs done) p id = entries done p id := by
  induction vs with
  | nil =>
    intro done _ hdone
    rw [show nodeRequests [] = [] from rfl] at hdone
    obtain rfl := List.forall₂_nil_left_iff.mp hdone
    exact ⟨⟨fun _ _ h => absurd h List.not_mem_nil, fun _ => List.Forall₂.nil⟩, fun _ _ => rfl⟩
  | cons v vs ih =>
    intro done hmemory hdone
    obtain ⟨hv, hvs⟩ := List.forall_mem_cons.mp hmemory
    rw [nodeRequests_cons] at hdone
    by_cases hrequest : v.isRequest = true
    · rw [if_pos hrequest] at hdone
      obtain ⟨nr, rest, ⟨htotal, -, hids⟩, hrest, rfl⟩ := List.forall₂_cons_left_iff.mp hdone
      have hpos : 0 < v.totalCpus := (isRequest_iff hv).mp hrequest
      have hcpus : cpuIds (v.assign nr) = nr.cpuIds := cpuIds_assign (by rw [htotal]; exact hpos) hids
      obtain ⟨hiff, hentries⟩ := ih rest hvs hrest
      have hhead : Listed v (v.assign nr) ↔ Full nr := by
        unfold Listed Full
        rw [hcpus, htotal]
        exact ⟨fun h => h.2.1 hpos, fun h => ⟨rfl, fun _ => h, fun hzero => by omega⟩⟩
      rw [writeBack, if_pos hrequest]
      refine ⟨?_, fun p id => ?_⟩
      · rw [List.forall₂_cons, hhead, hiff, List.forall_mem_cons]
      · rw [listed, List.map_cons, List.sum_cons, ← listed, hentries, entries, entries, List.map_cons,
          List.sum_cons, hcpus]
        congr 1
        have hnode : (0 < (v.assign nr).totalCpus ∧ (v.assign nr).nodeId = some p) ↔
            p = nr.nodeId := by
          unfold VmNode.assign
          dsimp only
          rw [Option.some.injEq]
          exact ⟨fun h => h.2.symm, fun h => ⟨hpos, h.symm⟩⟩
        simp only [hnode]
    · have hzero : v.totalCpus = 0 := by
        by_contra hne
        exact hrequest ((isRequest_iff hv).mpr (by omega))
      rw [if_neg hrequest] at hdone
      obtain ⟨hiff, hentries⟩ := ih done hvs hdone
      have hhead : Listed v v := ⟨rfl, fun hpos => by omega, fun _ => rfl⟩
      have hskip : writeBack (v :: vs) done = v :: writeBack vs done := by
        rw [writeBack.eq_def]
        dsimp only
        rw [if_neg hrequest]
      rw [hskip]
      refine ⟨?_, fun p id => ?_⟩
      · rw [List.forall₂_cons, hiff]
        exact ⟨fun h => h.2, fun h => ⟨hhead, h⟩⟩
      · rw [listed, List.map_cons, List.sum_cons, ← listed, hentries, if_neg (by omega), Nat.zero_add]

/-! ## The number of machines before a placement -/

theorem fits_of_takeThreads {vt vmid tc tcpus : ℕ} {c : Core}
    (h : Fits vt (c.takeThreads vmid tc tcpus).1) : Fits vt c := by
  intro cpu hcpu
  rcases (takeThreads_gained vmid tc tcpus).exists_mem hcpu with hmem | hmem
  · exact h cpu hmem
  · have hcard := h _ hmem
    rw [Multiset.card_cons] at hcard
    omega

theorem fits_of_dedicate {vt vmid : ℕ} {c : Core} (h : Fits vt (c.dedicate vmid)) : Fits vt c := by
  intro cpu hcpu
  unfold dedicate at h
  cases hcpus : c.cpus with
  | nil =>
    rw [hcpus] at hcpu
    exact absurd hcpu List.not_mem_nil
  | cons x cpus =>
    rw [hcpus] at hcpu h
    rcases List.mem_cons.mp hcpu with rfl | hcpu
    · have hcard := h _ List.mem_cons_self
      rw [Multiset.card_cons] at hcard
      omega
    · exact h cpu (List.mem_cons_of_mem _ hcpu)

theorem fits_of_takeCores {vt vmid tc : ℕ} (cores : OrderedMap ℕ Core) : ∀ tcpus : ℕ,
    (∀ e ∈ (HostShareNode.takeCores vmid tc cores tcpus).1, Fits vt e.2) → ∀ e ∈ cores, Fits vt e.2 := by
  induction cores with
  | nil => exact fun _ h => h
  | cons x cores ih =>
    intro tcpus h
    rw [HostShareNode.takeCores] at h
    split_ifs at h
    · exact h
    · obtain ⟨hhead, htail⟩ := List.forall_mem_cons.mp h
      exact List.forall_mem_cons.mpr ⟨fits_of_takeThreads hhead, ih _ htail⟩

theorem fits_of_dedicateCores {vt vmid : ℕ} (cores : OrderedMap ℕ Core) : ∀ tcpus : ℕ,
    (∀ e ∈ (HostShareNode.dedicateCores vmid cores tcpus).1, Fits vt e.2) →
      ∀ e ∈ cores, Fits vt e.2 := by
  induction cores with
  | nil => exact fun _ h => h
  | cons x cores ih =>
    intro tcpus h
    rw [HostShareNode.dedicateCores] at h
    split_ifs at h
    · exact h
    · obtain ⟨hhead, htail⟩ := List.forall_mem_cons.mp h
      exact List.forall_mem_cons.mpr ⟨fits_of_dedicate hhead, ih _ htail⟩
    · obtain ⟨hhead, htail⟩ := List.forall_mem_cons.mp h
      exact List.forall_mem_cons.mpr ⟨hhead, ih _ htail⟩

section Before

variable {vt vmid tc hpszKb : ℕ} {dedicated : Bool} {numa : HostShareNUMA}

theorem fits_of_modify {p : ℤ} {f : HostShareNode → HostShareNode}
    (hf : ∀ n, (f n).AllCores (Fits vt) → n.AllCores (Fits vt)) (hsorted : numa.nodes.Sorted)
    (h : (numa.modify p f).AllCores (Fits vt)) : numa.AllCores (Fits vt) := by
  refine ⟨hsorted, fun e he => ?_⟩
  have hafter := h.cores _ (List.mem_map_of_mem he)
  split_ifs at hafter
  · exact hf e.2 hafter
  · exact hafter

theorem fits_of_takeMemory {nr : NodeRequest} (hsorted : numa.nodes.Sorted)
    (h : (takeMemory hpszKb nr numa).2.AllCores (Fits vt)) : numa.AllCores (Fits vt) := by
  have hmem : (numa.modify nr.memNodeId
      fun m => { m with memUsage := m.memUsage + nr.memory }).AllCores (Fits vt) →
      numa.AllCores (Fits vt) := by
    refine fits_of_modify ?_ hsorted
    exact fun _ hn => hn
  unfold takeMemory at h
  split at h
  · exact h
  · dsimp only at h
    split_ifs at h
    · exact hmem h
    · split at h
      · exact hmem h
      · refine hmem (fits_of_modify ?_ (sorted_modify hsorted _ _) h)
        exact fun _ hn => hn

variable (vt vmid tc hpszKb dedicated) in
/-- A CPU does not have more machines before a placement than after it. -/
theorem fits_of_placeOne (nr : NodeRequest) (hsorted : numa.nodes.Sorted)
    (h : (placeOne vmid dedicated tc hpszKb nr numa).2.AllCores (Fits vt)) :
    numa.AllCores (Fits vt) := by
  unfold placeOne at h
  split at h
  · exact h
  · refine fits_of_modify (fun n hn => ?_) hsorted (fits_of_takeMemory (sorted_modify hsorted _ _) h)
    unfold HostShareNode.allocateCpus at hn
    split_ifs at hn
    · exact fits_of_dedicateCores n.cores _ hn
    · exact fits_of_takeCores n.cores _ hn

theorem fits_of_placeAll (hvm : vmid < 2 ^ 31) (nrs : List NodeRequest) : ∀ numa : HostShareNUMA,
    numa.AllCores (Sound vt) →
      (placeAll vmid dedicated tc hpszKb nrs numa).2.2.AllCores (Fits vt) → numa.AllCores (Fits vt) := by
  induction nrs with
  | nil => exact fun _ _ h => h
  | cons nr nrs ih =>
    intro numa hsound h
    have hsound' := sound_placeOne tc hpszKb dedicated hvm nr hsound
    rw [placeAll] at h
    split at h
    · rename_i numa' hplace
      have hone := fits_of_placeOne vt vmid tc hpszKb dedicated nr hsound.sorted
      rw [hplace] at hone
      exact hone h
    · rename_i nr' numa' hplace
      have hone := fits_of_placeOne vt vmid tc hpszKb dedicated nr hsound.sorted
      rw [hplace] at hone hsound'
      exact hone (ih numa' hsound' h)

end Before

/-! ## Main results -/

/-- A machine that is pinned: without an affinity, and with memory for the virtual nodes with CPUs. -/
structure Pinned (sr : NumaCapacity) (t : Topology) : Prop where
  topology : sr.topology = some t
  policy : strToPinPolicy t.pinPolicy ≠ .none
  affinity : t.nodeAffinity = -1
  memory : ∀ v ∈ sr.nodes, HasMemory v

/-- The lists of CPUs are those that were asked for, each entry is the machine on a CPU, no CPU has
more machines than it may have, and the counters are those of the CPUs. -/
structure Exact (vt : ℕ) (sr sr' : NumaCapacity) (numa numa' : HostShareNUMA) : Prop where
  lists : List.Forall₂ Listed sr.nodes sr'.nodes
  pins : ∀ p id vm, pins numa' p id vm =
    pins numa p id vm + if vm = sr.vmid then listed sr'.nodes p id else 0
  fits : numa'.AllCores (Fits vt)
  counted : numa'.AllCores Counted

/-- Only temporary counters differ. -/
def Unchanged (numa numa' : HostShareNUMA) : Prop := numa'.clearAllocated = numa.clearAllocated

variable {F : Type*} [LinearOrder F] (fit : ℕ → ℕ → Bool → F)

/-- No CPU has more machines than it may have, and at the turn of each virtual node that shares its
cores the cores of the node offer the CPUs that it asks for. -/
structure Supplied (vt : ℕ) (sr : NumaCapacity) (t : Topology) (numa : HostShareNUMA) : Prop where
  fits : numa.AllCores (Fits vt)
  cpus : strToPinPolicy t.pinPolicy ≠ .core →
    AtTurns fit (fun tc n nr => nr.totalCpus ≤ offered tc n) sr numa

theorem kept_sound : Kept Sound where
  reserve := fun _ _ ids h => h.reserveCpus ids
  take := fun _ _ _ tc tcpus hvm h => h.takeThreads tc tcpus hvm
  del := fun _ _ ids vmid h => h.delCpus ids vmid
  reload := fun vt _ _ _ => sound_new _ vt _

/-- What is dedicated is sound. -/
theorem keeps_sound {vt vmid : ℕ} (hvm : vmid < 2 ^ 31) (dedicated : Bool) (n : HostShareNode)
    (nr : NodeRequest) : KeepsDedicated (Sound vt) vmid dedicated n nr :=
  fun _ _ he hc => hc.dedicate (HostShareNode.mem_targets he).2 hvm

theorem sound_of_run {s : NumaShare} (h : Run (step fit) start s) :
    0 < s.vmsThread ∧ s.numa.AllCores (Sound s.vmsThread) := by
  refine h.inv (P := fun s => 0 < s.vmsThread ∧ s.numa.AllCores (Sound s.vmsThread)) ?_ ?_
  · exact ⟨Nat.one_pos, List.Pairwise.nil, fun e he => absurd he List.not_mem_nil⟩
  · rintro s op s' ⟨hvt, hs⟩ - hstep
    refine ⟨?_, allCores_step kept_sound hs ?_ hstep⟩
    · cases op with
      | setMonitorization ht =>
        rw [← Option.some.inj hstep]
        exact hvt
      | updateCapacity vthread cpuIds =>
        rw [← Option.some.inj hstep]
        unfold updateCapacity
        cases vthread with
        | none => cases cpuIds <;> exact hvt
        | some vt =>
          have hpos : 0 < if vt = 0 then 1 else vt := by
            split_ifs with hzero
            · exact Nat.one_pos
            · omega
          cases cpuIds <;> exact hpos
      | add sr =>
        obtain ⟨r, -, rfl⟩ := Option.map_eq_some_iff.mp hstep
        exact hvt
      | del sr =>
        rw [← Option.some.inj hstep]
        exact hvt
      | reload =>
        obtain ⟨numa, -, rfl⟩ := Option.map_eq_some_iff.mp hstep
        exact hvt
    · cases op with
      | setMonitorization ht => exact fun c _ => sound_new c.2.2 s.vmsThread false
      | updateCapacity vthread cpuIds => exact fun vt _ => hs.mono fun c hc => hc.setThread _
      | add sr =>
        exact fun t _ t' tc nrs s' _ _ => inTurn_of_forall (keeps_sound sr.vmid.isLt _) _ _ _ _ _ _
      | del sr => trivial
      | reload => trivial

section Plan

variable {fit} {numa numa' : HostShareNUMA}

theorem nodeRequests_pos {vs : List VmNode} : ∀ nr ∈ nodeRequests vs, 0 < nr.totalCpus := by
  intro nr hnr
  obtain ⟨v, hv, rfl⟩ := List.mem_map.mp hnr
  have hrequest := (List.mem_filter.mp hv).2
  unfold VmNode.isRequest at hrequest
  rw [Bool.and_eq_true, decide_eq_true_eq] at hrequest
  exact hrequest.1

/-- The requests of a plan ask for CPUs, and their nodes are there. -/
theorem plan_placed {hpszKb : ℕ} {nrs nrs' : List NodeRequest}
    (h : List.Forall₂ (IsPlaced hpszKb numa) nrs nrs')
    (hclear : numa'.clearAllocated = numa.clearAllocated) (hpos : ∀ nr ∈ nrs, 0 < nr.totalCpus) :
    ∀ nr ∈ nrs', 0 < nr.totalCpus ∧ Placed hpszKb numa' nr := by
  induction h with
  | nil => exact fun _ hnr => absurd hnr List.not_mem_nil
  | cons hhead _ ih =>
    obtain ⟨hfirst, hrest⟩ := List.forall_mem_cons.mp hpos
    obtain ⟨htotal, -, hplaced⟩ := hhead
    exact List.forall_mem_cons.mpr ⟨⟨by rw [htotal]; exact hfirst, hplaced.of_clear hclear⟩, ih hrest⟩

theorem answers_of_served {hpszKb : ℕ} {nrs nrs' done : List NodeRequest}
    (h : List.Forall₂ (IsPlaced hpszKb numa) nrs nrs') (hserved : List.Forall₂ Served nrs' done) :
    List.Forall₂ Answers nrs done := by
  induction h generalizing done with
  | nil =>
    obtain rfl := List.forall₂_nil_left_iff.mp hserved
    exact List.Forall₂.nil
  | cons hhead _ ih =>
    obtain ⟨nr, rest, ⟨heq, hids⟩, hrest, rfl⟩ := List.forall₂_cons_left_iff.mp hserved
    obtain ⟨htotal, hmemory, -⟩ := hhead
    exact List.Forall₂.cons ⟨by rw [heq]; exact htotal, by rw [heq]; exact hmemory, hids⟩ (ih hrest)

/-- A placement of all the virtual nodes has the result 0. -/
theorem allocateNodes_done {sr : NumaCapacity} {t : Topology} {tc : ℤ} {nrs done : List NodeRequest}
    {r : ℤ × NumaCapacity × HostShareNUMA}
    (hdone : (placeAll sr.vmid (strToPinPolicy t.pinPolicy = .core) tc.toNat (hugepageKb t) nrs
      numa).1 = true)
    (hlist : (placeAll sr.vmid (strToPinPolicy t.pinPolicy = .core) tc.toNat (hugepageKb t) nrs
      numa).2.1 = done)
    (h : allocateNodes sr t tc nrs numa = some r) :
    r.1 = 0 ∧ r.2.1.nodes = writeBack sr.nodes done := by
  unfold allocateNodes at h
  split at h
  · rename_i hplace
    rw [hplace] at hdone
    exact absurd hdone Bool.false_ne_true
  · rename_i hplace
    dsimp only at h
    split_ifs at h
    rw [hplace] at hlist
    rw [← Option.some.inj h, ← hlist]
    exact ⟨rfl, rfl⟩

end Plan

/-- A search for places meets a condition when the placement that it finds does. -/
theorem atTurns_iff {Q : ℕ → HostShareNode → NodeRequest → Prop} {sr : NumaCapacity} {t : Topology}
    {numa numa' : HostShareNUMA} {tc : ℤ} {nrs : List NodeRequest} (htop : sr.topology = some t)
    (hplan : planTopology fit sr t true numa = some (some (tc, nrs), numa')) :
    AtTurns fit Q sr numa ↔
      InTurn (Q tc.toNat) sr.vmid (strToPinPolicy t.pinPolicy = .core) tc.toNat (hugepageKb t) nrs
        numa' := by
  constructor
  · exact fun h => h t tc nrs numa' htop hplan
  · intro h t' tc' nrs' numa'' htop' hplan'
    obtain rfl := Option.some.inj (htop.symm.trans htop')
    obtain ⟨heq, rfl⟩ := Prod.mk.inj (Option.some.inj (hplan.symm.trans hplan'))
    obtain ⟨rfl, rfl⟩ := Prod.mk.inj (Option.some.inj heq)
    exact h

/-- A machine with dedicated cores always finds them; another one finds what the cores offer. -/
theorem atTurns_capacity {sr : NumaCapacity} {t : Topology} {numa : HostShareNUMA}
    (hsorted : numa.nodes.Sorted) (htop : sr.topology = some t) :
    AtTurns fit (fun tc n nr => nr.totalCpus ≤ capacity (strToPinPolicy t.pinPolicy = .core) tc n) sr
        numa ↔
      (strToPinPolicy t.pinPolicy ≠ .core →
        AtTurns fit (fun tc n nr => nr.totalCpus ≤ offered tc n) sr numa) := by
  by_cases hcore : strToPinPolicy t.pinPolicy = .core
  · refine ⟨fun _ hne => absurd hcore hne, fun _ t' tc nrs numa' htop' hplan => ?_⟩
    obtain rfl := Option.some.inj (htop.symm.trans htop')
    rw [decide_eq_true hcore]
    exact inTurn_of_load nrs numa' (planTopology_load hcore hsorted hplan)
  · rw [decide_eq_false hcore]
    exact ⟨fun h _ => h, fun h => h hcore⟩

/-- An addition leaves no CPU with more machines than it may have. -/
theorem fitted_of_makeTopology {fit : ℕ → ℕ → Bool → F} {vt : ℕ} {sr : NumaCapacity}
    {numa : HostShareNUMA} {r : ℤ × NumaCapacity × HostShareNUMA} (hvt : 0 < vt)
    (hsound : numa.AllCores (Sound vt)) (hfits : numa.AllCores (Fits vt))
    (hrun : numa.makeTopology fit sr true = some r) :
    r.2.2.AllCores fun c => Sound vt c ∧ Fits vt c := by
  have hboth : numa.AllCores fun c => Sound vt c ∧ Fits vt c :=
    ⟨hsound.sorted, fun e he c hc => ⟨hsound.cores e he c hc, hfits.cores e he c hc⟩⟩
  refine hboth.makeTopology (fun c tc tcpus hc => ?_) (fun t _ t' tc nrs numa' _ _ => ?_) hrun
  · exact ⟨hc.1.takeThreads tc tcpus sr.vmid.isLt, hc.2.takeThreads tc tcpus hc.1.thread⟩
  · refine inTurn_of_forall (fun n nr => ?_) _ _ _ _ _ _
    rintro - e he ⟨hc, -⟩
    have hded := (HostShareNode.mem_targets he).2
    exact ⟨hc.dedicate hded sr.vmid.isLt, fits_dedicate hc.counted hded hvt _⟩

/-- A machine without virtual nodes needs nothing. -/
theorem exact_iff_of_nil {vt : ℕ} {sr : NumaCapacity} {t : Topology} {numa : HostShareNUMA}
    (hsound : numa.AllCores (Sound vt)) (hnil : sr.nodes = []) :
    Exact vt sr sr numa numa ↔ Supplied fit vt sr t numa := by
  constructor
  · intro h
    refine ⟨h.fits, fun _ t' tc nrs numa' _ hplan => ?_⟩
    have hnrs := planTopology_spec hsound.sorted hplan
    rw [hnil] at hnrs
    rw [List.forall₂_nil_left_iff.mp hnrs]
    trivial
  · intro h
    refine ⟨by rw [hnil]; exact List.Forall₂.nil, fun p id vm => ?_, h.fits,
      hsound.mono fun c hc => hc.counted⟩
    rw [hnil, show listed [] p id = 0 from rfl, ite_self, Nat.add_zero]

/-- **The lists of a pinned machine are exact if and only if its nodes have the CPUs**, and a machine
that is refused changes nothing. -/
theorem exact_iff_of_run {s : NumaShare} (h : Run (step fit) start s) {sr : NumaCapacity}
    {t : Topology} (hpinned : Pinned sr t) {r : ℤ × NumaCapacity × HostShareNUMA}
    (hrun : s.numa.makeTopology fit sr true = some r) :
    (r.1 = 0 → (Exact s.vmsThread sr r.2.1 s.numa r.2.2 ↔ Supplied fit s.vmsThread sr t s.numa)) ∧
      (r.1 ≠ 0 → Unchanged s.numa r.2.2) := by
  obtain ⟨hvt, hsound⟩ := sound_of_run fit h
  rcases makeTopology_cases hrun with ⟨rfl, hnone | hnil⟩ | rfl | ⟨t', htop, ⟨hother, -⟩ |
    ⟨numa', hplan, rfl⟩ | ⟨tc, nrs, numa', hplan, hplace⟩⟩
  · exact absurd (hnone.symm.trans hpinned.topology) (by simp)
  · exact ⟨fun _ => exact_iff_of_nil fit hsound hnil, fun hne => absurd rfl hne⟩
  · exact ⟨fun h => absurd h (by simp), fun _ => rfl⟩
  · obtain rfl := Option.some.inj (hpinned.topology.symm.trans htop)
    exact absurd hother (by simp [hpinned.affinity, hpinned.policy])
  · exact ⟨fun h => absurd h (by simp), fun _ => planTopology_clear hplan⟩
  · obtain rfl := Option.some.inj (hpinned.topology.symm.trans htop)
    have hclear : numa'.clearAllocated = s.numa.clearAllocated := planTopology_clear hplan
    have hplaced := planTopology_spec hsound.sorted hplan
    have hsound' : numa'.AllCores (Sound s.vmsThread) := hsound.of_clear hclear
    obtain ⟨done, hdone, hlist, hserved, hfull, hpins⟩ := placeAll_spec tc.toNat
      (strToPinPolicy t.pinPolicy = .core) sr.vmid.isLt nrs numa' hsound'
      (plan_placed hplaced hclear nodeRequests_pos)
    obtain ⟨hzero, hnodes⟩ := allocateNodes_done hdone hlist hplace
    obtain ⟨hlists, hentries⟩ := writeBack_spec sr.nodes done hpinned.memory
      (answers_of_served hplaced hserved)
    have hstate := allocateNodes_state hplace
    have hturns := atTurns_iff fit (Q := fun tc n nr =>
      nr.totalCpus ≤ capacity (strToPinPolicy t.pinPolicy = .core) tc n) htop hplan
    refine ⟨fun _ => ⟨fun hexact => ⟨?_, ?_⟩, fun hsupplied => ⟨?_, ?_, ?_, ?_⟩⟩,
      fun hne => absurd hzero hne⟩
    · have hfits := hexact.fits
      rw [hstate] at hfits
      exact (fits_of_placeAll sr.vmid.isLt nrs numa' hsound' hfits).of_clear hclear.symm
    · rw [← atTurns_capacity fit hsound.sorted htop, hturns, ← hfull, ← hlists, ← hnodes]
      exact hexact.lists
    · rw [hnodes, hlists, hfull, ← hturns, atTurns_capacity fit hsound.sorted htop]
      exact hsupplied.cpus
    · have hcpus := (atTurns_capacity fit hsound.sorted htop).mpr hsupplied.cpus
      intro p id vm
      rw [hstate, hnodes, hentries, hpins (hfull.mpr (hturns.mp hcpus)), pins_clear hclear]
    · exact (fitted_of_makeTopology hvt hsound hsupplied.fits hrun).mono fun c hc => hc.2
    · exact (fitted_of_makeTopology hvt hsound hsupplied.fits hrun).mono fun c hc => hc.1.counted

/-- A host with one core of two CPUs and two machines for a CPU at most. -/
def twoPlaces : Option NumaShare :=
  runEvents (step freeShare) start [.setMonitorization report, .updateCapacity (some 2) none]

theorem pinned_machine (totalCpus : ℕ) : Pinned (machine "THREAD".toList totalCpus)
    ⟨"THREAD".toList, -1, 0, 0, 0, 1⟩ where
  topology := rfl
  policy := by decide
  affinity := rfl
  memory := by
    intro v hv
    rw [List.mem_singleton.mp hv]
    intro _
    norm_num

theorem exact_twoCpus : ∃ s r, twoPlaces = some s ∧
    s.numa.makeTopology freeShare (machine "THREAD".toList 2) true = some r ∧ r.1 = 0 ∧
      Exact s.vmsThread (machine "THREAD".toList 2) r.2.1 s.numa r.2.2 := by
  have hcheck : (twoPlaces.elim false fun s =>
      (s.numa.makeTopology freeShare (machine "THREAD".toList 2) true).elim false fun r =>
        decide (r.1 = 0 ∧ (∀ e ∈ s.numa.nodes, ∀ c ∈ e.2.cores, ∀ cpu ∈ c.2.cpus,
            cpu.2.card ≤ s.vmsThread) ∧
          AtTurns freeShare (fun tc n nr => nr.totalCpus ≤ offered tc n) (machine "THREAD".toList 2)
            s.numa)) = true := by
    decide
  cases hs : twoPlaces with
  | none =>
    rw [hs] at hcheck
    exact absurd hcheck (by decide)
  | some s =>
    rw [hs, Option.elim_some] at hcheck
    cases hr : s.numa.makeTopology freeShare (machine "THREAD".toList 2) true with
    | none =>
      rw [hr] at hcheck
      exact absurd hcheck Bool.false_ne_true
    | some r =>
      rw [hr] at hcheck
      obtain ⟨hzero, hfits, hcpus⟩ := of_decide_eq_true hcheck
      have hrun := run_of_runEvents _ hs
      refine ⟨s, r, rfl, hr, hzero, ?_⟩
      refine ((exact_iff_of_run freeShare hrun (pinned_machine 2) hr).1 hzero).mpr ⟨?_, fun _ => hcpus⟩
      exact ⟨(sound_of_run freeShare hrun).2.sorted, hfits⟩

theorem not_exact : ∃ s r, Run (step freeShare) start s ∧
    Pinned (machine "THREAD".toList 4) ⟨"THREAD".toList, -1, 0, 0, 0, 1⟩ ∧
      s.numa.makeTopology freeShare (machine "THREAD".toList 4) true = some r ∧ r.1 = 0 ∧
        pins r.2.2 0 1 7 = 1 ∧ r.2.1.nodes.map cpuIds = [[]] ∧
          ¬Exact s.vmsThread (machine "THREAD".toList 4) r.2.1 s.numa r.2.2 := by
  have hcheck : (twoPlaces.elim false fun s =>
      (s.numa.makeTopology freeShare (machine "THREAD".toList 4) true).elim false fun r =>
        decide (r.1 = 0 ∧ pins r.2.2 0 1 7 = 1 ∧ r.2.1.nodes.map cpuIds = [[]])) = true := by
    decide
  cases hs : twoPlaces with
  | none =>
    rw [hs] at hcheck
    exact absurd hcheck (by decide)
  | some s =>
    rw [hs, Option.elim_some] at hcheck
    cases hr : s.numa.makeTopology freeShare (machine "THREAD".toList 4) true with
    | none =>
      rw [hr] at hcheck
      exact absurd hcheck Bool.false_ne_true
    | some r =>
      rw [hr] at hcheck
      obtain ⟨hzero, hpins, hlists⟩ := of_decide_eq_true hcheck
      refine ⟨s, r, run_of_runEvents _ hs, pinned_machine 4, hr, hzero, hpins, hlists, fun h => ?_⟩
      obtain ⟨v, vs, ⟨-, hlength, -⟩, -, hnodes⟩ := List.forall₂_cons_left_iff.mp h.lists
      rw [hnodes, List.map_cons] at hlists
      have hempty := hlength (by decide)
      rw [(List.cons.inj hlists).1] at hempty
      exact absurd hempty (by decide)

end NumaPinning
