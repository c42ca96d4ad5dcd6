/-
# Runs of the operations on NUMA nodes

A property of the cores of a host that every change of one core keeps is kept by the operations
(`allCores_step`).  What a placement needs at the turn of each virtual node is a condition `InTurn` on
the node and the request.  Finding the place of a machine changes temporary counters only
(`SameNodes`), and the nodes and the hugepages that it finds are there (`Placed`).
-/
import OpenNebula.NumaCores

/-! ## All the cores -/

/-- A property of the cores of a node. -/
def HostShareNode.AllCores (P : Core → Prop) (n : HostShareNode) : Prop := ∀ e ∈ n.cores, P e.2

namespace HostShareNUMA

/-- The nodes are in their order, and a property holds of all the cores. -/
structure AllCores (P : Core → Prop) (s : HostShareNUMA) : Prop where
  sorted : s.nodes.Sorted
  cores : ∀ e ∈ s.nodes, e.2.AllCores P

variable {P : Core → Prop} {s : HostShareNUMA}

theorem AllCores.mono {P' : Core → Prop} (h : s.AllCores P) (himp : ∀ c, P c → P' c) :
    s.AllCores P' :=
  ⟨h.sorted, fun e he c hc => himp c.2 (h.cores e he c hc)⟩

theorem sorted_modify (h : s.nodes.Sorted) (id : ℤ) (f : HostShareNode → HostShareNode) :
    (s.modify id f).nodes.Sorted :=
  OrderedMap.Sorted.modify h f

theorem AllCores.modify (h : s.AllCores P) {id : ℤ} {f : HostShareNode → HostShareNode}
    (hf : ∀ n, (id, n) ∈ s.nodes → (f n).AllCores P) : (s.modify id f).AllCores P := by
  refine ⟨sorted_modify h.sorted id f, fun e he => ?_⟩
  rcases OrderedMap.mem_modify he with he | ⟨n, hn, rfl⟩
  · exact h.cores e he
  · exact hf n hn

/-- Other data of a node is changed. -/
theorem AllCores.modify_other (h : s.AllCores P) (id : ℤ) {f : HostShareNode → HostShareNode}
    (hf : ∀ n, (f n).cores = n.cores) : (s.modify id f).AllCores P := by
  refine h.modify fun n hn => ?_
  unfold HostShareNode.AllCores
  rw [hf]
  exact h.cores _ hn

theorem AllCores.getNode (h : s.AllCores P) (id : ℤ) {f : HostShareNode → HostShareNode}
    (hf : ∀ n, n.AllCores P → (f n).AllCores P) : (s.getNode id f).AllCores P := by
  have hempty : HostShareNode.empty.AllCores P := fun e he => absurd he List.not_mem_nil
  refine ⟨h.sorted.alter, fun e he => ?_⟩
  rcases OrderedMap.mem_alter he with he | rfl | ⟨n, hn, rfl⟩
  · exact h.cores e he
  · exact hf _ hempty
  · exact hf n (h.cores _ hn)

/-- All the nodes are changed. -/
theorem AllCores.map {P' : Core → Prop} (h : s.AllCores P) {f : HostShareNode → HostShareNode}
    (hf : ∀ n, n.AllCores P → (f n).AllCores P') (threadsCore : ℕ) :
    AllCores P' ⟨threadsCore, s.nodes.map fun e => (e.1, f e.2)⟩ := by
  refine ⟨List.pairwise_map.mpr h.sorted, fun e he => ?_⟩
  obtain ⟨e', he', rfl⟩ := List.mem_map.mp he
  exact hf _ (h.cores e' he')

/-! ## Cores that a placement takes -/

end HostShareNUMA

namespace HostShareNode

variable {P : Core → Prop}

/-- The cores that are dedicated to a machine: the first that can be. -/
def targets (cores : OrderedMap ℕ Core) (tcpus : ℕ) : OrderedMap ℕ Core :=
  (cores.filter fun e => e.2.dedicable).take tcpus

theorem mem_dedicateCores (vmid : ℕ) (cores : OrderedMap ℕ Core) : ∀ (tcpus : ℕ) (e : ℕ × Core),
    e ∈ (dedicateCores vmid cores tcpus).1 →
      e ∈ cores ∨ ∃ e' ∈ targets cores tcpus, e = (e'.1, e'.2.dedicate vmid) := by
  induction cores with
  | nil => exact fun _ _ he => Or.inl he
  | cons x cores ih =>
    intro tcpus e he
    rw [dedicateCores] at he
    split_ifs at he with hzero hded
    · exact Or.inl he
    · obtain ⟨t, rfl⟩ := Nat.exists_eq_succ_of_ne_zero hzero
      unfold targets
      rw [List.filter_cons_of_pos (p := fun e : ℕ × Core => e.2.dedicable) hded, List.take_succ_cons]
      rcases List.mem_cons.mp he with rfl | he
      · exact Or.inr ⟨x, List.mem_cons_self, rfl⟩
      · rcases ih t e he with he | ⟨e', he', rfl⟩
        · exact Or.inl (List.mem_cons_of_mem _ he)
        · exact Or.inr ⟨e', List.mem_cons_of_mem _ he', rfl⟩
    · unfold targets
      rw [List.filter_cons_of_neg (p := fun e : ℕ × Core => e.2.dedicable) (by simpa using hded)]
      rcases List.mem_cons.mp he with rfl | he
      · exact Or.inl List.mem_cons_self
      · rcases ih tcpus e he with he | he
        · exact Or.inl (List.mem_cons_of_mem _ he)
        · exact Or.inr he

theorem mem_targets {cores : OrderedMap ℕ Core} {tcpus : ℕ} {e : ℕ × Core}
    (he : e ∈ targets cores tcpus) : e ∈ cores ∧ e.2.dedicable = true :=
  List.mem_filter.mp (List.mem_of_mem_take he)

theorem takeCores_all {vmid tc : ℕ} (htake : ∀ c tcpus, P c → P (c.takeThreads vmid tc tcpus).1)
    (cores : OrderedMap ℕ Core) : ∀ tcpus : ℕ, (∀ e ∈ cores, P e.2) →
      ∀ e ∈ (takeCores vmid tc cores tcpus).1, P e.2 := by
  induction cores with
  | nil => exact fun _ h => h
  | cons x cores ih =>
    intro tcpus h
    obtain ⟨hhead, htail⟩ := List.forall_mem_cons.mp h
    rw [takeCores]
    split_ifs
    · exact h
    · exact List.forall_mem_cons.mpr ⟨htake x.2 tcpus hhead, ih _ htail⟩

theorem delFromCores_all {vmid : ℕ} (hdel : ∀ c ids, P c → P (c.delCpus ids vmid))
    (cores : OrderedMap ℕ Core) : ∀ ids : List ℕ, (∀ e ∈ cores, P e.2) →
      ∀ e ∈ delFromCores vmid ids cores, P e.2 := by
  induction cores with
  | nil => exact fun _ h => h
  | cons x cores ih =>
    intro ids h
    obtain ⟨hhead, htail⟩ := List.forall_mem_cons.mp h
    rw [delFromCores]
    exact List.forall_mem_cons.mpr ⟨hdel x.2 ids hhead, ih _ htail⟩

theorem AllCores.setCore {n : HostShareNode} (h : n.AllCores P) {id vmsThread : ℕ} {cpus : Text}
    (hnew : P (Core.new cpus vmsThread false)) : (n.setCore id cpus vmsThread).AllCores P := by
  unfold HostShareNode.setCore
  split
  · exact h
  · intro e he
    rcases OrderedMap.mem_alter he with he | rfl | ⟨c, -, rfl⟩
    · exact h e he
    · exact hnew
    · exact hnew

end HostShareNode

namespace HostShareNUMA

variable {P : Core → Prop} {s : HostShareNUMA}

/-! ## The virtual nodes one after the other -/

/-- A condition on a node and a request holds at the turn of each virtual node. -/
def InTurn (Q : HostShareNode → NodeRequest → Prop) (vmid : ℕ) (dedicated : Bool) (tc hpszKb : ℕ) :
    List NodeRequest → HostShareNUMA → Prop
  | [], _ => True
  | nr :: nrs, s =>
    (∀ n, s.nodes.find nr.nodeId = some n → Q n nr) ∧
      InTurn Q vmid dedicated tc hpszKb nrs (placeOne vmid dedicated tc hpszKb nr s).2

instance InTurn.decidable (Q : HostShareNode → NodeRequest → Prop) [∀ n nr, Decidable (Q n nr)]
    (vmid : ℕ) (dedicated : Bool) (tc hpszKb : ℕ) : ∀ (nrs : List NodeRequest) (s : HostShareNUMA),
      Decidable (InTurn Q vmid dedicated tc hpszKb nrs s)
  | [], _ => isTrue trivial
  | nr :: nrs, s =>
    have : Decidable (∀ n, s.nodes.find nr.nodeId = some n → Q n nr) :=
      match s.nodes.find nr.nodeId with
      | none => isTrue fun _ h => absurd h (by simp)
      | some n =>
        decidable_of_iff (Q n nr) ⟨fun h m hm => by rwa [← Option.some.inj hm], fun h => h n rfl⟩
    have := InTurn.decidable Q vmid dedicated tc hpszKb nrs (placeOne vmid dedicated tc hpszKb nr s).2
    inferInstanceAs (Decidable (_ ∧ _))

theorem inTurn_of_forall {Q : HostShareNode → NodeRequest → Prop} (h : ∀ n nr, Q n nr) (vmid : ℕ)
    (dedicated : Bool) (tc hpszKb : ℕ) (nrs : List NodeRequest) :
    ∀ s : HostShareNUMA, InTurn Q vmid dedicated tc hpszKb nrs s := by
  induction nrs with
  | nil => exact fun _ => trivial
  | cons nr nrs ih => exact fun s => ⟨fun n _ => h n nr, ih _⟩

theorem inTurn_mono {Q Q' : HostShareNode → NodeRequest → Prop} {vmid : ℕ} {dedicated : Bool}
    {tc hpszKb : ℕ} (himp : ∀ n nr, Q n nr → Q' n nr) (nrs : List NodeRequest) :
    ∀ s : HostShareNUMA, InTurn Q vmid dedicated tc hpszKb nrs s →
      InTurn Q' vmid dedicated tc hpszKb nrs s := by
  induction nrs with
  | nil => exact fun _ _ => trivial
  | cons nr nrs ih =>
    rintro s ⟨hnow, hlater⟩
    exact ⟨fun n hn => himp n nr (hnow n hn), ih _ hlater⟩

/-- What is dedicated keeps a property of the cores. -/
def KeepsDedicated (P : Core → Prop) (vmid : ℕ) (dedicated : Bool) (n : HostShareNode)
    (nr : NodeRequest) : Prop :=
  dedicated = true → ∀ e ∈ HostShareNode.targets n.cores nr.totalCpus, P e.2 → P (e.2.dedicate vmid)

section Place

variable {vmid tc hpszKb : ℕ} {dedicated : Bool}

theorem AllCores.takeMemory (h : s.AllCores P) (nr : NodeRequest) :
    (takeMemory hpszKb nr s).2.AllCores P := by
  have hmem := h.modify_other nr.memNodeId
    (f := fun m => { m with memUsage := m.memUsage + nr.memory }) fun _ => rfl
  unfold HostShareNUMA.takeMemory
  split
  · exact h
  · dsimp only
    split_ifs
    · exact hmem
    · split
      · exact hmem
      · exact hmem.modify_other nr.memNodeId fun _ => rfl

variable (hpszKb) in
theorem allCores_placeOne (htake : ∀ c tcpus, P c → P (c.takeThreads vmid tc tcpus).1)
    {nr : NodeRequest}
    (hded : ∀ n, s.nodes.find nr.nodeId = some n → KeepsDedicated P vmid dedicated n nr)
    (h : s.AllCores P) : (placeOne vmid dedicated tc hpszKb nr s).2.AllCores P := by
  unfold placeOne
  split
  · exact h
  · rename_i n hn
    refine AllCores.takeMemory (h.modify fun m hm => ?_) nr
    have hm' : s.nodes.find nr.nodeId = some m := h.sorted.find_of_mem hm
    have hnode := h.cores _ hm
    unfold HostShareNode.allocateCpus
    split_ifs with hpolicy
    · intro e he
      rcases HostShareNode.mem_dedicateCores vmid m.cores _ e he with he | ⟨e', he', rfl⟩
      · exact hnode e he
      · exact hded m hm' hpolicy e' he' (hnode e' (HostShareNode.mem_targets he').1)
    · exact HostShareNode.takeCores_all htake m.cores _ hnode

theorem allCores_placeAll (htake : ∀ c tcpus, P c → P (c.takeThreads vmid tc tcpus).1)
    (nrs : List NodeRequest) : ∀ s : HostShareNUMA,
      InTurn (KeepsDedicated P vmid dedicated) vmid dedicated tc hpszKb nrs s → s.AllCores P →
        (placeAll vmid dedicated tc hpszKb nrs s).2.2.AllCores P := by
  induction nrs with
  | nil => exact fun _ _ h => h
  | cons nr nrs ih =>
    rintro s ⟨hnow, hlater⟩ h
    have hone := allCores_placeOne hpszKb htake hnow h
    rw [placeAll]
    split
    · rename_i s' hs
      rw [hs] at hone
      exact hone
    · rename_i nr' s' hs
      rw [hs] at hone hlater
      exact ih s' hlater hone

end Place

/-! ## Temporary counters -/

theorem clearAllocated_allot (id : ℤ) (nr : NodeRequest) (hpszKb : ℕ) (s : HostShareNUMA) :
    (s.modify id (allot nr hpszKb)).clearAllocated = s.clearAllocated := by
  have hpages : ∀ pages : OrderedMap ℕ HugePage,
      (pages.modify hpszKb fun page =>
        { page with allocated := page.allocated + (nr.memory / hpszKb).toNat }).map
          (fun p => (p.1, { p.2 with allocated := 0 })) =
        pages.map fun p => (p.1, { p.2 with allocated := 0 }) := by
    intro pages
    rw [OrderedMap.modify, List.map_map]
    refine List.map_congr_left fun p _ => ?_
    dsimp only [Function.comp]
    split_ifs <;> rfl
  have hnode : ∀ n : HostShareNode, (allot nr hpszKb n).clearAllocated = n.clearAllocated := by
    intro n
    unfold allot HostShareNode.clearAllocated
    dsimp only
    split_ifs
    · rfl
    · rw [hpages]
  unfold clearAllocated HostShareNUMA.modify
  dsimp only
  rw [OrderedMap.modify, List.map_map]
  congr 1
  refine List.map_congr_left fun e _ => ?_
  dsimp only [Function.comp]
  split_ifs
  · rw [hnode]
  · rfl

theorem clearAllocated_idem (s : HostShareNUMA) :
    s.clearAllocated.clearAllocated = s.clearAllocated := by
  unfold clearAllocated HostShareNode.clearAllocated
  simp only [List.map_map, Function.comp_def]

theorem AllCores.of_clear {s' : HostShareNUMA} (h : s.AllCores P)
    (hclear : s'.clearAllocated = s.clearAllocated) : s'.AllCores P := by
  have hs : s.clearAllocated.AllCores P :=
    h.map (f := HostShareNode.clearAllocated) (fun n hn => hn) s.threadsCore
  rw [← hclear] at hs
  have hsorted : (s'.nodes.map fun e => (e.1, e.2.clearAllocated)).Pairwise
      fun e e' => e.1 < e'.1 := hs.sorted
  rw [List.pairwise_map] at hsorted
  refine ⟨hsorted, fun e he => ?_⟩
  exact hs.cores (e.1, e.2.clearAllocated)
    (List.mem_map_of_mem (f := fun e => (e.1, HostShareNode.clearAllocated e.2)) he)

/-! ## The places that are found -/

/-- The node of the CPUs and the node of the memory that are found, and their hugepages. -/
def Placed (hpszKb : ℕ) (s : HostShareNUMA) (nr : NodeRequest) : Prop :=
  (∃ n, s.nodes.find nr.nodeId = some n) ∧
    ∃ m, s.nodes.find nr.memNodeId = some m ∧ (hpszKb = 0 ∨ hpszKb ∈ m.pages.keys)

theorem find_clearAllocated (s : HostShareNUMA) (id : ℤ) :
    s.clearAllocated.nodes.find id = (s.nodes.find id).map HostShareNode.clearAllocated :=
  OrderedMap.find_map (fun _ => HostShareNode.clearAllocated) s.nodes id

theorem keys_clearAllocated (n : HostShareNode) : n.clearAllocated.pages.keys = n.pages.keys := by
  unfold HostShareNode.clearAllocated
  dsimp only
  rw [OrderedMap.keys, List.map_map]
  rfl

theorem placed_clearAllocated {hpszKb : ℕ} {s : HostShareNUMA} {nr : NodeRequest} :
    Placed hpszKb s.clearAllocated nr ↔ Placed hpszKb s nr := by
  unfold Placed
  rw [find_clearAllocated, find_clearAllocated]
  constructor
  · rintro ⟨⟨n, hn⟩, m, hm, hpage⟩
    obtain ⟨n', hn', -⟩ := Option.map_eq_some_iff.mp hn
    obtain ⟨m', hm', rfl⟩ := Option.map_eq_some_iff.mp hm
    rw [keys_clearAllocated] at hpage
    exact ⟨⟨n', hn'⟩, m', hm', hpage⟩
  · rintro ⟨⟨n, hn⟩, m, hm, hpage⟩
    rw [hn, hm]
    rw [← keys_clearAllocated] at hpage
    exact ⟨⟨_, rfl⟩, _, rfl, hpage⟩

theorem Placed.of_clear {hpszKb : ℕ} {s s' : HostShareNUMA} {nr : NodeRequest}
    (h : Placed hpszKb s nr) (hclear : s'.clearAllocated = s.clearAllocated) :
    Placed hpszKb s' nr := by
  rw [← placed_clearAllocated, hclear, placed_clearAllocated]
  exact h

theorem tryFits_mem {s : HostShareNUMA} {memFits : List ℤ} {hop : ℕ} {place : ℤ × ℤ} :
    ∀ fits : List ℤ, tryFits s memFits hop fits = some (some place) →
      place.1 ∈ fits ∧ place.2 ∈ memFits := by
  intro fits
  induction fits with
  | nil =>
    intro h
    rw [tryFits] at h
    exact absurd (Option.some.inj h) (by simp)
  | cons snode rest ih =>
    intro h
    rw [tryFits] at h
    split at h
    · exact absurd h (by simp)
    · split_ifs at h with hmem
      · obtain rfl := Option.some.inj (Option.some.inj h)
        exact ⟨List.mem_cons_self, hmem⟩
      · exact ⟨List.mem_cons_of_mem _ (ih h).1, (ih h).2⟩

theorem tryHops_mem {s : HostShareNUMA} {memFits fits : List ℤ} {place : ℤ × ℤ} :
    ∀ hops : List ℕ, tryHops s memFits fits hops = some (some place) →
      place.1 ∈ fits ∧ place.2 ∈ memFits := by
  intro hops
  induction hops with
  | nil =>
    intro h
    rw [tryHops] at h
    exact absurd (Option.some.inj h) (by simp)
  | cons hop hops ih =>
    intro h
    rw [tryHops] at h
    split at h
    · exact absurd h (by simp)
    · rename_i found hfound
      obtain rfl := Option.some.inj (Option.some.inj h)
      exact tryFits_mem fits hfound
    · exact ih h

section Schedule

variable {F : Type*} [LinearOrder F] {fit : ℕ → ℕ → Bool → F}
variable {threads hpszKb : ℕ} {dedicated doAlloc : Bool} {pciNodes : List ℤ} {pciIdx : ℤ}

theorem mem_cpuFits {totalCpus : ℕ} {id : ℤ} {s : HostShareNUMA}
    (h : id ∈ cpuFits fit totalCpus threads dedicated pciIdx s) :
    ∃ n, (id, n) ∈ s.nodes ∧ (n.cpuFit totalCpus threads dedicated).isSome := by
  obtain ⟨e, he, rfl⟩ := List.mem_map.mp h
  rw [List.mem_insertionSort, List.mem_filterMap] at he
  obtain ⟨x, hx, hfit⟩ := he
  obtain ⟨cpus, hcpus, rfl⟩ := Option.map_eq_some_iff.mp hfit
  exact ⟨x.2, hx, by rw [hcpus, Option.isSome_some]⟩

theorem mem_memFits {memory : ℤ} {id : ℤ} {s : HostShareNUMA} (h : id ∈ memFits memory hpszKb s) :
    ∃ n, (id, n) ∈ s.nodes ∧ n.memFit memory hpszKb = true := by
  obtain ⟨e, he, rfl⟩ := List.mem_map.mp h
  obtain ⟨hmem, hfit⟩ := List.mem_filter.mp he
  exact ⟨e.2, hmem, hfit⟩

theorem page_of_memFit {memory : ℤ} {n : HostShareNode} (h : n.memFit memory hpszKb = true) :
    hpszKb = 0 ∨ hpszKb ∈ n.pages.keys := by
  unfold HostShareNode.memFit at h
  dsimp only at h
  rw [Bool.and_eq_true, Bool.or_eq_true, decide_eq_true_eq, decide_eq_true_eq] at h
  rcases h.2 with hzero | hpage
  · exact Or.inl hzero
  · split at hpage
    · exact absurd hpage (by decide)
    · rename_i page hfind
      exact Or.inr (OrderedMap.mem_keys_of_find hfind)

/-- **A virtual node that fits** gets nodes that are there. -/
theorem scheduleNodes_spec {nr nr' : NodeRequest} {s s' : HostShareNUMA} (hsorted : s.nodes.Sorted)
    (h : scheduleNodes fit nr threads dedicated hpszKb pciIdx true s = some (true, nr', s')) :
    Placed hpszKb s nr' ∧
      nr' = { nr with nodeId := nr'.nodeId, memNodeId := nr'.memNodeId } ∧
      s' = s.modify nr'.nodeId (allot nr hpszKb) ∧
      ∃ n, s.nodes.find nr'.nodeId = some n ∧
        (n.cpuFit nr.totalCpus threads dedicated).isSome := by
  unfold scheduleNodes at h
  dsimp only at h
  rw [Bool.not_true, if_neg (by decide : ¬false = true)] at h
  split_ifs at h
  · exact absurd (Prod.mk.inj (Option.some.inj h)).1 (by decide)
  · split at h
    · exact absurd h (by simp)
    · exact absurd (Prod.mk.inj (Option.some.inj h)).1 (by decide)
    · rename_i snode memSnode hplace
      obtain ⟨-, h⟩ := Prod.mk.inj (Option.some.inj h)
      obtain ⟨rfl, rfl⟩ := Prod.mk.inj h
      obtain ⟨hcpu, hmem⟩ := tryHops_mem _ hplace
      obtain ⟨n, hn, hfit⟩ := mem_cpuFits hcpu
      obtain ⟨m, hm, hmemFit⟩ := mem_memFits hmem
      have hn' := hsorted.find_of_mem hn
      exact ⟨⟨⟨n, hn'⟩, m, hsorted.find_of_mem hm, page_of_memFit hmemFit⟩, rfl, rfl, n, hn', hfit⟩

theorem scheduleNodes_clear {nr : NodeRequest} {s : HostShareNUMA}
    {r : Bool × NodeRequest × HostShareNUMA}
    (h : scheduleNodes fit nr threads dedicated hpszKb pciIdx doAlloc s = some r) :
    r.2.2.clearAllocated = s.clearAllocated := by
  unfold scheduleNodes at h
  dsimp only at h
  split_ifs at h
  · rw [← Option.some.inj h]
  · rw [← Option.some.inj h]
  · split at h
    · exact absurd h (by simp)
    · rw [← Option.some.inj h]
    · rw [← Option.some.inj h]
      exact clearAllocated_allot _ nr hpszKb s

theorem scheduleAll_clear (nrs : List NodeRequest) : ∀ (idx : ℕ) (s : HostShareNUMA)
    (r : Bool × List NodeRequest × HostShareNUMA),
    scheduleAll fit threads dedicated hpszKb pciNodes doAlloc idx nrs s = some r →
      r.2.2.clearAllocated = s.clearAllocated := by
  induction nrs with
  | nil =>
    intro idx s r h
    rw [scheduleAll] at h
    rw [← Option.some.inj h]
  | cons nr nrs ih =>
    intro idx s r h
    rw [scheduleAll] at h
    split at h
    · exact absurd h (by simp)
    · rename_i nr' s' hone
      rw [← Option.some.inj h]
      exact scheduleNodes_clear hone
    · rename_i nr' s' hone
      obtain ⟨r', hr', rfl⟩ := Option.map_eq_some_iff.mp h
      rw [ih _ _ _ hr']
      exact scheduleNodes_clear hone

/-- A request with its nodes. -/
def IsPlaced (hpszKb : ℕ) (s : HostShareNUMA) (nr nr' : NodeRequest) : Prop :=
  nr'.totalCpus = nr.totalCpus ∧ nr'.memory = nr.memory ∧ Placed hpszKb s nr'

/-- **All the virtual nodes fit**: each has nodes that are there. -/
theorem scheduleAll_spec (nrs : List NodeRequest) : ∀ (idx : ℕ) (s s' : HostShareNUMA)
    (nrs' : List NodeRequest), s.nodes.Sorted →
    scheduleAll fit threads dedicated hpszKb pciNodes true idx nrs s = some (true, nrs', s') →
      List.Forall₂ (IsPlaced hpszKb s) nrs nrs' := by
  induction nrs with
  | nil =>
    intro idx s s' nrs' _ h
    rw [scheduleAll] at h
    obtain ⟨-, h⟩ := Prod.mk.inj (Option.some.inj h)
    rw [← (Prod.mk.inj h).1]
    exact List.Forall₂.nil
  | cons nr nrs ih =>
    intro idx s s' nrs' hsorted h
    rw [scheduleAll] at h
    split at h
    · exact absurd h (by simp)
    · exact absurd (Prod.mk.inj (Option.some.inj h)).1 (by decide)
    · rename_i nr' s1 hone
      obtain ⟨r, hr, heq⟩ := Option.map_eq_some_iff.mp h
      obtain ⟨hok, heq⟩ := Prod.mk.inj heq
      obtain ⟨rfl, rfl⟩ := Prod.mk.inj heq
      obtain ⟨hplaced, hnr, hs1, -⟩ := scheduleNodes_spec hsorted hone
      have hclear := scheduleNodes_clear hone
      have hsorted1 : s1.nodes.Sorted := by
        rw [hs1]
        exact sorted_modify hsorted _ _
      have hrest := ih (idx + 1) s1 r.2.2 r.2.1 hsorted1 (by rw [hr, ← hok])
      refine List.Forall₂.cons ⟨by rw [hnr], by rw [hnr], hplaced⟩ (List.Forall₂.imp ?_ hrest)
      rintro a b ⟨hcpus, hmemory, hb⟩
      exact ⟨hcpus, hmemory, hb.of_clear hclear.symm⟩

/-- The requests ask for the same. -/
def SameRequest (nr nr' : NodeRequest) : Prop :=
  nr'.totalCpus = nr.totalCpus ∧ nr'.memory = nr.memory

theorem scheduleNodes_same {nr : NodeRequest} {s : HostShareNUMA}
    {r : Bool × NodeRequest × HostShareNUMA}
    (h : scheduleNodes fit nr threads dedicated hpszKb pciIdx doAlloc s = some r) :
    SameRequest nr r.2.1 := by
  unfold scheduleNodes at h
  dsimp only at h
  split_ifs at h
  · rw [← Option.some.inj h]
    exact ⟨rfl, rfl⟩
  · rw [← Option.some.inj h]
    exact ⟨rfl, rfl⟩
  · split at h
    · exact absurd h (by simp)
    · rw [← Option.some.inj h]
      exact ⟨rfl, rfl⟩
    · rw [← Option.some.inj h]
      exact ⟨rfl, rfl⟩

theorem scheduleAll_same (nrs : List NodeRequest) : ∀ (idx : ℕ) (s : HostShareNUMA)
    (r : Bool × List NodeRequest × HostShareNUMA),
    scheduleAll fit threads dedicated hpszKb pciNodes doAlloc idx nrs s = some r →
      List.Forall₂ SameRequest nrs r.2.1 := by
  induction nrs with
  | nil =>
    intro idx s r h
    rw [scheduleAll] at h
    rw [← Option.some.inj h]
    exact List.Forall₂.nil
  | cons nr nrs ih =>
    intro idx s r h
    rw [scheduleAll] at h
    split at h
    · exact absurd h (by simp)
    · rename_i nr' s' hone
      rw [← Option.some.inj h]
      exact List.Forall₂.cons (scheduleNodes_same hone)
        (List.forall₂_same.mpr fun _ _ => ⟨rfl, rfl⟩)
    · rename_i nr' s' hone
      obtain ⟨r', hr', rfl⟩ := Option.map_eq_some_iff.mp h
      exact List.Forall₂.cons (scheduleNodes_same hone) (ih _ _ _ hr')

theorem IsPlaced.of_same {s s' : HostShareNUMA} {nrs nrs' nrs'' : List NodeRequest}
    (hsame : List.Forall₂ SameRequest nrs nrs')
    (hplaced : List.Forall₂ (IsPlaced hpszKb s') nrs' nrs'')
    (hclear : s.clearAllocated = s'.clearAllocated) :
    List.Forall₂ (IsPlaced hpszKb s) nrs nrs'' := by
  induction hsame generalizing nrs'' with
  | nil =>
    cases hplaced
    exact List.Forall₂.nil
  | cons hhead _ ih =>
    cases hplaced with
    | cons hfirst hrest =>
      obtain ⟨hcpus, hmemory, hp⟩ := hfirst
      refine List.Forall₂.cons ⟨hcpus.trans hhead.1, hmemory.trans hhead.2, hp.of_clear hclear⟩ ?_
      exact ih hrest

theorem tryThreads_clear (tcs : List ℕ) : ∀ (nrs : List NodeRequest) (s : HostShareNUMA)
    (r : Option ℕ × List NodeRequest × HostShareNUMA),
    tryThreads fit dedicated hpszKb pciNodes doAlloc tcs nrs s = some r →
      r.2.2.clearAllocated = s.clearAllocated := by
  induction tcs with
  | nil =>
    intro nrs s r h
    rw [tryThreads] at h
    rw [← Option.some.inj h]
  | cons tc tcs ih =>
    intro nrs s r h
    rw [tryThreads] at h
    split at h
    · exact absurd h (by simp)
    · rename_i nrs' s' hall
      rw [← Option.some.inj h]
      exact (scheduleAll_clear nrs 0 _ _ hall).trans (clearAllocated_idem s)
    · rename_i nrs' s' hall
      rw [ih _ _ _ h]
      exact (scheduleAll_clear nrs 0 _ _ hall).trans (clearAllocated_idem s)

/-- The nodes of the number of threads that fits. -/
theorem tryThreads_spec (tcs : List ℕ) : ∀ (nrs nrs' : List NodeRequest) (s s' : HostShareNUMA)
    (tc : ℕ), s.nodes.Sorted →
    tryThreads fit dedicated hpszKb pciNodes true tcs nrs s = some (some tc, nrs', s') →
      List.Forall₂ (IsPlaced hpszKb s) nrs nrs' := by
  induction tcs with
  | nil =>
    intro nrs nrs' s s' tc _ h
    rw [tryThreads] at h
    exact absurd (Prod.mk.inj (Option.some.inj h)).1 (by simp)
  | cons tc tcs ih =>
    intro nrs nrs' s s' tc' hsorted h
    have hcleared : s.clearAllocated.nodes.Sorted := List.pairwise_map.mpr hsorted
    rw [tryThreads] at h
    split at h
    · exact absurd h (by simp)
    · rename_i nrs1 s1 hall
      obtain ⟨-, h⟩ := Prod.mk.inj (Option.some.inj h)
      obtain ⟨rfl, -⟩ := Prod.mk.inj h
      refine List.Forall₂.imp ?_ (scheduleAll_spec nrs 0 _ _ _ hcleared hall)
      rintro a b ⟨hcpus, hmemory, hb⟩
      exact ⟨hcpus, hmemory, placed_clearAllocated.mp hb⟩
    · rename_i nrs1 s1 hall
      have hclear := (scheduleAll_clear nrs 0 _ _ hall).trans (clearAllocated_idem s)
      have hsorted1 : s1.nodes.Sorted :=
        (AllCores.of_clear (P := fun _ => True) ⟨hsorted, fun _ _ _ _ => trivial⟩ hclear).sorted
      exact IsPlaced.of_same (scheduleAll_same nrs 0 _ _ hall) (ih nrs1 nrs' s1 s' tc' hsorted1 h)
        hclear.symm

/-- What a search for the numbers of threads in a list gives. -/
theorem planTopology_cases {sr : NumaCapacity} {t : Topology} {s : HostShareNUMA}
    {r : Option (ℤ × List NodeRequest) × HostShareNUMA}
    (h : planTopology fit sr t doAlloc s = some r) :
    r = (none, s) ∨
      ∃ pciNodes tcs tried nrs s', (strToPinPolicy t.pinPolicy = .core → tcs = [1]) ∧
        tryThreads fit (strToPinPolicy t.pinPolicy = .core) (hugepageKb t) pciNodes doAlloc tcs
          (nodeRequests sr.nodes) s = some (tried, nrs, s') ∧
        r = (match tried with
          | some tc => some ((tc : ℤ), nrs)
          | none => if nodeRequests sr.nodes = [] then some (t.threads, []) else none, s') := by
  unfold planTopology at h
  dsimp only at h
  split at h
  · exact absurd h (by simp)
  · rename_i tValid hvalid
    by_cases hno : (!(decide (strToPinPolicy t.pinPolicy = .core)) && t.threads ≠ 0 &&
        !(tValid.any fun tc : ℕ => (tc : ℤ) = t.threads)) = true
    · rw [if_pos hno] at h
      exact Or.inl (Option.some.inj h).symm
    · rw [if_neg hno] at h
      have hcore : strToPinPolicy t.pinPolicy = .core →
          (if (!(decide (strToPinPolicy t.pinPolicy = .core)) && t.threads ≠ 0) = true then
            tValid.filter fun tc : ℕ => (tc : ℤ) = t.threads else tValid) = [1] := by
        intro hpolicy
        unfold validThreads at hvalid
        rw [decide_eq_true hpolicy, if_pos rfl] at hvalid
        rw [decide_eq_true hpolicy, ← Option.some.inj hvalid]
        rfl
      split at h
      · exact absurd h (by simp)
      · rename_i htry
        exact Or.inr ⟨_, _, _, _, _, hcore, htry, (Option.some.inj h).symm⟩
      · rename_i htry
        exact Or.inr ⟨_, _, _, _, _, hcore, htry, (Option.some.inj h).symm⟩

theorem planTopology_clear {sr : NumaCapacity} {t : Topology} {s : HostShareNUMA}
    {r : Option (ℤ × List NodeRequest) × HostShareNUMA}
    (h : planTopology fit sr t doAlloc s = some r) : r.2.clearAllocated = s.clearAllocated := by
  rcases planTopology_cases h with rfl | ⟨pciNodes, tcs, tried, nrs, s', -, htry, rfl⟩
  · rfl
  · exact tryThreads_clear tcs _ _ _ htry

/-- **A plan** has a request for each virtual node, with nodes that are there. -/
theorem planTopology_spec {sr : NumaCapacity} {t : Topology} {s s' : HostShareNUMA} {tc : ℤ}
    {nrs : List NodeRequest} (hsorted : s.nodes.Sorted)
    (h : planTopology fit sr t true s = some (some (tc, nrs), s')) :
    List.Forall₂ (IsPlaced (hugepageKb t) s) (nodeRequests sr.nodes) nrs := by
  rcases planTopology_cases h with h | ⟨pciNodes, tcs, tried, nrs', s1, -, htry, h⟩
  · exact absurd (Prod.mk.inj h).1 (by simp)
  · obtain ⟨h, -⟩ := Prod.mk.inj h
    cases tried with
    | some tc' =>
      obtain ⟨-, rfl⟩ := Prod.mk.inj (Option.some.inj h)
      exact tryThreads_spec tcs _ _ _ _ tc' hsorted htry
    | none =>
      dsimp only at h
      split_ifs at h with hnil
      obtain ⟨-, rfl⟩ := Prod.mk.inj (Option.some.inj h)
      rw [hnil]
      exact List.Forall₂.nil

end Schedule

/-! ## Additions -/

section Addition

variable {F : Type*} [LinearOrder F] (fit : ℕ → ℕ → Bool → F)

/-- At the turn of each virtual node of a machine that is placed, a condition on the host node and the
request holds. -/
def AtTurns (Q : ℕ → HostShareNode → NodeRequest → Prop) (sr : NumaCapacity) (s : HostShareNUMA) :
    Prop :=
  ∀ t tc nrs s', sr.topology = some t → planTopology fit sr t true s = some (some (tc, nrs), s') →
    InTurn (Q tc.toNat) sr.vmid (strToPinPolicy t.pinPolicy = .core) tc.toNat (hugepageKb t) nrs s'

instance AtTurns.decidable (Q : ℕ → HostShareNode → NodeRequest → Prop)
    [∀ tc n nr, Decidable (Q tc n nr)] (sr : NumaCapacity) (s : HostShareNUMA) :
    Decidable (AtTurns fit Q sr s) :=
  match htop : sr.topology with
  | none => isTrue fun t _ _ _ h => absurd (htop.symm.trans h) (by simp)
  | some t =>
    match hplan : planTopology fit sr t true s with
    | some (some (tc, nrs), s') =>
      decidable_of_iff (InTurn (Q tc.toNat) sr.vmid (strToPinPolicy t.pinPolicy = .core) tc.toNat
          (hugepageKb t) nrs s') (by
        constructor
        · intro h t' tc' nrs' s'' htop' hplan'
          obtain rfl := Option.some.inj (htop.symm.trans htop')
          obtain ⟨heq, rfl⟩ := Prod.mk.inj (Option.some.inj (hplan.symm.trans hplan'))
          obtain ⟨rfl, rfl⟩ := Prod.mk.inj (Option.some.inj heq)
          exact h
        · exact fun h => h t tc nrs s' htop hplan)
    | some (none, _) => isTrue (by
        intro t' tc' nrs' s'' htop' hplan'
        obtain rfl := Option.some.inj (htop.symm.trans htop')
        exact absurd (Prod.mk.inj (Option.some.inj (hplan.symm.trans hplan'))).1 (by simp))
    | none => isTrue (by
        intro t' tc' nrs' s'' htop' hplan'
        obtain rfl := Option.some.inj (htop.symm.trans htop')
        exact absurd (hplan.symm.trans hplan') (by simp))

variable {fit}

/-- The host after the virtual nodes have been placed. -/
theorem allocateNodes_state {sr : NumaCapacity} {t : Topology} {tc : ℤ} {nrs : List NodeRequest}
    {r : ℤ × NumaCapacity × HostShareNUMA} (h : allocateNodes sr t tc nrs s = some r) :
    r.2.2 =
      (placeAll sr.vmid (strToPinPolicy t.pinPolicy = .core) tc.toNat (hugepageKb t) nrs s).2.2 := by
  unfold allocateNodes at h
  split at h
  · rename_i done s' hplace
    rw [hplace, ← Option.some.inj h]
  · rename_i done s' hplace
    dsimp only at h
    split_ifs at h
    rw [hplace, ← Option.some.inj h]

/-- What an addition does: nothing, a part of the memory of one node, a search for a place without
success, or a placement. -/
theorem makeTopology_cases {sr : NumaCapacity} {r : ℤ × NumaCapacity × HostShareNUMA}
    (h : s.makeTopology fit sr true = some r) :
    (r = (0, sr, s) ∧ (sr.topology = none ∨ sr.nodes = [])) ∨ r = (-1, sr, s) ∨
      ∃ t, sr.topology = some t ∧
        (((t.nodeAffinity ≠ -1 ∨ strToPinPolicy t.pinPolicy = .none) ∧
            ∃ nodeId n, takeWhole sr nodeId (hugepageKb t) n s = some r) ∨
          (∃ s', planTopology fit sr t true s = some (none, s') ∧ r = (-1, sr, s')) ∨
          ∃ tc nrs s', planTopology fit sr t true s = some (some (tc, nrs), s') ∧
            allocateNodes sr t tc nrs s' = some r) := by
  unfold HostShareNUMA.makeTopology at h
  split at h
  · rename_i htop
    exact Or.inl ⟨(Option.some.inj h).symm, Or.inl htop⟩
  · rename_i t htop
    split_ifs at h with hnil haffinity hhuge hdo
    · exact Or.inl ⟨(Option.some.inj h).symm, Or.inr hnil⟩
    · unfold makeAffinedTopology at h
      split at h
      · exact Or.inr (Or.inl (Option.some.inj h).symm)
      · rename_i n hn
        split at h
        · exact Or.inr (Or.inl (Option.some.inj h).symm)
        · rw [if_pos rfl] at h
          exact Or.inr (Or.inr ⟨t, htop, Or.inl ⟨Or.inl haffinity, _, n, h⟩⟩)
    · unfold makeHugepageTopology at h
      dsimp only at h
      split at h
      · exact Or.inr (Or.inl (Option.some.inj h).symm)
      · rename_i fhp e hbest
        rw [if_pos rfl] at h
        exact Or.inr (Or.inr ⟨t, htop, Or.inl ⟨Or.inr hhuge.2, _, e.2, h⟩⟩)
    · split at h
      · exact absurd h (by simp)
      · rename_i s' hplan
        exact Or.inr (Or.inr ⟨t, htop, Or.inr (Or.inl ⟨s', hplan, (Option.some.inj h).symm⟩)⟩)
      · rename_i tc nrs s' hplan
        exact Or.inr (Or.inr ⟨t, htop, Or.inr (Or.inr ⟨tc, nrs, s', hplan, h⟩)⟩)
    · exact absurd rfl hdo

/-- **An addition keeps a property of the cores** that the threads that it takes keep, and the cores
that it dedicates. -/
theorem AllCores.makeTopology (h : s.AllCores P) {sr : NumaCapacity}
    (htake : ∀ c tc tcpus, P c → P (c.takeThreads sr.vmid tc tcpus).1)
    (hded : ∀ t, sr.topology = some t → AtTurns fit (fun _ =>
      KeepsDedicated P sr.vmid (strToPinPolicy t.pinPolicy = .core)) sr s)
    {r : ℤ × NumaCapacity × HostShareNUMA}
    (hrun : s.makeTopology fit sr true = some r) : r.2.2.AllCores P := by
  rcases makeTopology_cases hrun with ⟨rfl, -⟩ | rfl | ⟨t, htop, ⟨-, nodeId, n, hwhole⟩ |
    ⟨s', hplan, rfl⟩ | ⟨tc, nrs, s', hplan, hplace⟩⟩
  · exact h
  · exact h
  · obtain ⟨cpuIds, -, rfl⟩ := Option.map_eq_some_iff.mp hwhole
    exact h.modify_other nodeId fun _ => rfl
  · exact h.of_clear (planTopology_clear hplan)
  · rw [allocateNodes_state hplace]
    exact allCores_placeAll (fun c tcpus => htake c tc.toNat tcpus) nrs s'
      (hded t htop t tc nrs s' htop hplan) (h.of_clear (planTopology_clear hplan))

end Addition

end HostShareNUMA

/-! ## Steps -/

namespace NumaShare

open HostShareNUMA

/-- A property of the cores, for each number of machines on a CPU, that is kept by what the operations
do to a core that is there. -/
structure Kept (P : ℕ → Core → Prop) : Prop where
  reserve : ∀ vt c ids, P vt c → P vt (c.reserveCpus ids)
  take : ∀ vt c vmid tc tcpus, vmid < 2 ^ 31 → P vt c → P vt (c.takeThreads vmid tc tcpus).1
  del : ∀ vt c ids vmid, P vt c → P vt (c.delCpus ids vmid)
  reload : ∀ vt c id, P vt c → P vt (reloadCore vt id c)

variable {F : Type*} [LinearOrder F] (fit : ℕ → ℕ → Bool → F)

/-- The cores that an operation makes, dedicates or gives other numbers have the property. -/
def Allows (P : ℕ → Core → Prop) (s : NumaShare) : Op → Prop
  | .setMonitorization ht => ∀ c ∈ ht.cores, P s.vmsThread (Core.new c.2.2 s.vmsThread false)
  | .updateCapacity vthread _ =>
    ∀ vt, vthread = some vt →
      s.numa.AllCores fun c =>
        P (if vt = 0 then 1 else vt) { c with vmsThread := if vt = 0 then 1 else vt }.setCpuUsage
  | .add sr =>
    ∀ t, sr.topology = some t → AtTurns fit (fun _ =>
      KeepsDedicated (P s.vmsThread) sr.vmid (strToPinPolicy t.pinPolicy = .core)) sr s.numa
  | .del _ => True
  | .reload => True

variable {fit} {P : ℕ → Core → Prop} {s s' : NumaShare}

/-- Nodes are made or changed one after the other. -/
theorem foldl_getNode {α : Type*} {Q : Core → Prop} (id : α → ℤ)
    {f : α → HostShareNode → HostShareNode} (l : List α) :
    ∀ numa : HostShareNUMA, (∀ a ∈ l, ∀ n, n.AllCores Q → (f a n).AllCores Q) → numa.AllCores Q →
      (l.foldl (fun s a => s.getNode (id a) (f a)) numa).AllCores Q := by
  induction l with
  | nil => exact fun _ _ h => h
  | cons a l ih =>
    intro numa hf h
    obtain ⟨ha, hl⟩ := List.forall_mem_cons.mp hf
    exact ih _ hl (h.getNode (id a) ha)

theorem allCores_setMonitorization {numa : HostShareNUMA} {vt : ℕ} {ht : Report} {Q : Core → Prop}
    (hnew : ∀ c ∈ ht.cores, Q (Core.new c.2.2 vt false)) (h : numa.AllCores Q) :
    (numa.setMonitorization ht vt).AllCores Q := by
  have hcores := foldl_getNode (fun c : ℤ × ℕ × Text => c.1)
    (f := fun c n => n.setCore c.2.1 c.2.2 vt) ht.cores numa
    (fun c hc n hn => hn.setCore (hnew c hc)) h
  have hpages := foldl_getNode (fun p : ℤ × ℕ × ℕ => p.1)
    (f := fun p n => n.setHugepage p.2.1 p.2.2) ht.pages _ (fun _ _ _ hn => hn) hcores
  exact foldl_getNode _ _ _ (fun _ _ _ hn => hn) hpages

theorem allCores_delNode {numa : HostShareNUMA} {vmid hpszKb : ℕ} {v : VmNode} {Q : Core → Prop}
    (hdel : ∀ c ids, Q c → Q (c.delCpus ids vmid)) (h : numa.AllCores Q) :
    (delNode vmid hpszKb v numa).AllCores Q := by
  unfold delNode
  split
  · rename_i nodeId memNodeId cpuIds memory _ _ _ _
    have hnodes := (h.getNode nodeId (f := id) fun _ hn => hn).getNode memNodeId (f := id)
      fun _ hn => hn
    refine AllCores.modify_other (hnodes.modify fun n hn => ?_) memNodeId fun _ => rfl
    exact HostShareNode.delFromCores_all hdel n.cores _ (hnodes.cores _ hn)
  · exact h

theorem allCores_del {numa : HostShareNUMA} {sr : NumaCapacity} {Q : Core → Prop}
    (hdel : ∀ c ids, Q c → Q (c.delCpus ids sr.vmid)) (h : numa.AllCores Q) :
    (numa.del sr).AllCores Q := by
  unfold HostShareNUMA.del
  dsimp only
  induction sr.nodes generalizing numa with
  | nil => exact h
  | cons v vs ih => exact ih (allCores_delNode hdel h)

theorem allCores_updateCapacity {vthread : Option ℕ} {cpuIds : Option Text} (hP : Kept P)
    (h : s.numa.AllCores (P s.vmsThread))
    (hok : Allows fit P s (.updateCapacity vthread cpuIds)) :
    (s.updateCapacity vthread cpuIds).numa.AllCores (P (s.updateCapacity vthread cpuIds).vmsThread) := by
  have hreserve : ∀ (s : NumaShare) (ids : Text), s.numa.AllCores (P s.vmsThread) →
      (s.numa.reserveCpus ids).AllCores (P s.vmsThread) := by
    intro s ids h
    refine h.map (f := HostShareNode.reserveCpus (splitIds ids)) (fun n hn => ?_) _
    intro e he
    obtain ⟨e', he', rfl⟩ := List.mem_map.mp he
    exact hP.reserve _ e'.2 _ (hn e' he')
  have husage : ∀ vt, vthread = some vt →
      (s.numa.updateCpuUsage (if vt = 0 then 1 else vt)).AllCores (P (if vt = 0 then 1 else vt)) := by
    intro vt hvt
    refine (hok vt hvt).map (f := fun n => { n with cores := n.cores.map fun c =>
      (c.1, { c.2 with vmsThread := if vt = 0 then 1 else vt }.setCpuUsage) }) (fun n hn => ?_) _
    intro e he
    obtain ⟨e', he', rfl⟩ := List.mem_map.mp he
    exact hn e' he'
  unfold updateCapacity
  cases vthread with
  | none =>
    cases cpuIds with
    | none => exact h
    | some ids => exact hreserve s ids h
  | some vt =>
    cases cpuIds with
    | none => exact husage vt rfl
    | some ids => exact hreserve ⟨_, _⟩ ids (husage vt rfl)

theorem allCores_reload {numa numa' : HostShareNUMA} {vt : ℕ} {Q : Core → Prop}
    (hreload : ∀ c id, Q c → Q (reloadCore vt id c)) (h : numa.AllCores Q)
    (hrun : numa.reload vt = some numa') : numa'.AllCores Q := by
  have hall := @AllCores.map _ _ Q h (fun n => { n with
      cores := n.cores.map fun c => (c.1, reloadCore vt c.1 c.2)
      pages := n.pages.map fun p => (p.1, { p.2 with allocated := 0 })
      allocatedCpus := 0
      allocatedMemory := 0 }) fun n hn e he => by
    obtain ⟨e', he', rfl⟩ := List.mem_map.mp he
    exact hreload e'.2 e'.1 (hn e' he')
  unfold HostShareNUMA.reload at hrun
  dsimp only at hrun
  split at hrun
  · rw [← Option.some.inj hrun]
    exact hall 1
  · obtain ⟨c, -, rfl⟩ := Option.map_eq_some_iff.mp hrun
    exact hall _

/-- **A step keeps a property of the cores.** -/
theorem allCores_step (hP : Kept P) {op : Op} (h : s.numa.AllCores (P s.vmsThread))
    (hok : Allows fit P s op) (hstep : step fit s op = some s') :
    s'.numa.AllCores (P s'.vmsThread) := by
  cases op with
  | setMonitorization ht =>
    rw [← Option.some.inj hstep]
    exact allCores_setMonitorization hok h
  | updateCapacity vthread cpuIds =>
    rw [← Option.some.inj hstep]
    exact allCores_updateCapacity hP h hok
  | add sr =>
    obtain ⟨r, hr, rfl⟩ := Option.map_eq_some_iff.mp hstep
    exact h.makeTopology (fun c tc tcpus hc => hP.take _ c _ tc tcpus sr.vmid.isLt hc) hok hr
  | del sr =>
    rw [← Option.some.inj hstep]
    exact allCores_del (fun c ids hc => hP.del _ c ids _ hc) h
  | reload =>
    obtain ⟨numa, hnuma, rfl⟩ := Option.map_eq_some_iff.mp hstep
    exact allCores_reload (fun c id hc => hP.reload _ c id hc) h hnuma

/-! ### A small host -/

/-- A host node with one core of two CPUs. -/
def report : Report := ⟨[(0, 0, "0,1".toList)], [], [(0, some 1000, [0])]⟩

/-- A machine with one virtual node. -/
def machine (policy : Text) (totalCpus : ℕ) : NumaCapacity :=
  ⟨7, totalCpus, 10, some ⟨policy, -1, 0, 0, 0, 1⟩, [⟨totalCpus, some 10, none, none, none⟩], []⟩

/-- The share of the CPUs that is free after a placement. -/
def freeShare (totalCpus cpus : ℕ) (_ : Bool) : ℚ := 1 - totalCpus / cpus

end NumaShare
