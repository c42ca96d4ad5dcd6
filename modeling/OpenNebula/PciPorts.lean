/-
# The addresses of PCI devices in the machine (`HostSharePCI::set_pci_address`)

A device of a machine with a NUMA topology goes to a root port of its node, or, if it is dedicated,
to a root port of its own kind; the other devices go to the flat bus.  The ports of a node, and the
dedicated ones, are given in their order, so that the address of a device only depends on its group
and on the number of devices of the group before it (`withAddress`, `addressAll_eq`).

The numbers of the ports and of the buses of different groups are linear in the number of the node
and of the nodes of the topology, and they meet: `distinct_iff` says exactly when two devices of a
machine get the same one.
-/
import OpenNebula.PciAssignment

open TextNumber

namespace HostSharePCI

/-! ## Groups of root ports -/

/-- The root ports that a device may get. -/
inductive PortGroup where
  | dedicated
  | node (n : ℤ)
  deriving DecidableEq

namespace PortGroup

/-- The key of the ports in `palloc`. -/
def key : PortGroup → ℕ
  | dedicated => 2 ^ 32 - 1
  | node n => toUnsigned n

/-- The number of a node is an `int`, and not the one that stands for no node. -/
def Valid : PortGroup → Prop
  | dedicated => True
  | node n => -2 ^ 31 ≤ n ∧ n < 2 ^ 31 ∧ n ≠ -1

/-- `first_port`. -/
def firstPort (total : ℕ) : PortGroup → ℕ
  | dedicated => (3 + total * 9 + 1) % 2 ^ 32
  | node n => toUnsigned (3 + n * 9 + 1)

/-- `port_inc`. -/
def portInc : PortGroup → ℕ
  | dedicated => 2
  | node _ => 1

/-- The first `bus_addr`. -/
def firstBus : PortGroup → ℕ
  | dedicated => 0xA0 + 1
  | node n => toUnsigned (0x20 + 0x10 * n + 1)

/-- `bus_inc`. -/
def busInc : PortGroup → ℕ
  | dedicated => 0x08
  | node _ => 1

/-- The number of ports between `first_port` and `end_port`. -/
def slots : PortGroup → ℕ
  | dedicated => 12
  | node _ => 8

/-- The port of the device after `k` others. -/
def port (total : ℕ) (g : PortGroup) (k : ℕ) : ℕ := g.firstPort total + g.portInc * k

/-- The bus of the device after `k` others. -/
def bus (g : PortGroup) (k : ℕ) : ℕ := (g.firstBus + g.busInc * k) % 2 ^ 32

/-- The number of devices that the group can have: none if `end_port` does not fit in 32 bits, and
none if the first port is `0`, which stands for no port. -/
def capacity (total : ℕ) (g : PortGroup) : ℕ :=
  if g.firstPort total = 0 ∨ 2 ^ 32 ≤ g.firstPort total + g.portInc * g.slots then 0 else g.slots

theorem key_injective {g h : PortGroup} (hg : g.Valid) (hh : h.Valid) (heq : g.key = h.key) :
    g = h := by
  cases g with
  | dedicated =>
    cases h with
    | dedicated => rfl
    | node n =>
      obtain ⟨h1, h2, h3⟩ := hh
      simp only [key, toUnsigned] at heq
      omega
  | node n =>
    obtain ⟨h1, h2, h3⟩ := hg
    cases h with
    | dedicated =>
      simp only [key, toUnsigned] at heq
      omega
    | node n' =>
      obtain ⟨h1', h2', h3'⟩ := hh
      simp only [key, toUnsigned] at heq
      rw [show n = n' by omega]

/-- The ports of the first `c` devices of a group. -/
def taken (total : ℕ) (g : PortGroup) (c : ℕ) : Finset ℕ := (Finset.range c).image (g.port total)

theorem portInc_pos (g : PortGroup) : 0 < g.portInc := by cases g <;> simp [portInc]

theorem port_injective (total : ℕ) (g : PortGroup) : Function.Injective (g.port total) := by
  intro k l h
  exact Nat.eq_of_mul_eq_mul_left g.portInc_pos (Nat.add_left_cancel h)

theorem port_mem_taken {total : ℕ} {g : PortGroup} {c k : ℕ} :
    g.port total k ∈ g.taken total c ↔ k < c := by
  rw [taken, Finset.mem_image]
  constructor
  · rintro ⟨l, hl, heq⟩
    rw [← port_injective total g heq]
    exact Finset.mem_range.mp hl
  · intro h
    exact ⟨k, Finset.mem_range.mpr h, rfl⟩

theorem taken_succ (total : ℕ) (g : PortGroup) (c : ℕ) :
    g.taken total (c + 1) = insert (g.port total c) (g.taken total c) := by
  rw [taken, taken, Finset.range_add_one, Finset.image_insert]

theorem bus_injective {g : PortGroup} {k l : ℕ} (hk : k < g.slots) (hl : l < g.slots)
    (h : g.bus k = g.bus l) : k = l := by
  cases g with
  | dedicated =>
    simp only [slots] at hk hl
    simp only [bus, firstBus, busInc] at h
    omega
  | node n =>
    simp only [slots] at hk hl
    simp only [bus, firstBus, busInc] at h
    omega

end PortGroup

/-- **The search of a root port** finds the one after the ports that are taken. -/
theorem freePort_eq {total : ℕ} {g : PortGroup} {c : ℕ}
    (hfit : g.firstPort total + g.portInc * g.slots < 2 ^ 32) (fuel : ℕ) :
    ∀ {j : ℕ}, j ≤ c → j + fuel = g.slots →
      freePort (g.taken total c) (g.firstPort total + g.portInc * g.slots) g.portInc g.busInc fuel
          (g.port total j) (g.bus j) =
        if c < g.slots then some (g.port total c, g.bus c) else none := by
  induction fuel with
  | zero =>
    intro j hj hfuel
    rw [freePort, if_neg (by omega)]
  | succ fuel ih =>
    intro j hj hfuel
    have hpos := g.portInc_pos
    have hlt : g.portInc * j < g.portInc * g.slots := Nat.mul_lt_mul_of_pos_left (by omega) hpos
    have hle : g.portInc * (j + 1) ≤ g.portInc * g.slots := Nat.mul_le_mul_left _ (by omega)
    have hport : (g.port total j + g.portInc) % 2 ^ 32 = g.port total (j + 1) := by
      rw [PortGroup.port, PortGroup.port, Nat.mul_succ, ← Nat.add_assoc]
      exact Nat.mod_eq_of_lt (by rw [Nat.mul_succ] at hle; omega)
    have hbus : (g.bus j + g.busInc) % 2 ^ 32 = g.bus (j + 1) := by
      rw [PortGroup.bus, PortGroup.bus, Nat.mod_add_mod, Nat.mul_succ, Nat.add_assoc]
    rw [freePort, if_pos (by rw [PortGroup.port]; omega)]
    rcases Nat.eq_or_lt_of_le hj with rfl | hjc
    · rw [if_pos (fun hmem => lt_irrefl j (PortGroup.port_mem_taken.mp hmem)), if_pos (by omega)]
    · rw [if_neg (not_not.mpr (PortGroup.port_mem_taken.mpr hjc)), hport, hbus, ih hjc (by omega)]

/-- When the end of the ports does not fit in 32 bits, there is no port. -/
theorem freePort_none {ports : Finset ℕ} {endPort portInc busInc fuel p bus : ℕ}
    (h : endPort ≤ p) : freePort ports endPort portInc busInc fuel p bus = none := by
  cases fuel with
  | zero => rfl
  | succ fuel => rw [freePort, if_neg (by omega)]

/-! ## One device -/

/-- The number of the node of a device; -1 for none. -/
def numaNode (nodes : List (ℤ × ℤ)) (device : PciAttribute) : ℤ :=
  if nodes = [] then -1 else (device.intValue .numaNode).getD (-1)

/-- The nodes of the topology that have processors and memory. -/
def totalNodes (nodes : List (ℤ × ℤ)) : ℕ := (nodes.filter fun n => n.1 > 0 && n.2 > 0).length

/-- The root ports of a device: those of its node or the dedicated ones.  A device without a number in
the machine gets no address. -/
def groupOf (nodes : List (ℤ × ℤ)) (device : PciAttribute) : Option PortGroup :=
  if device.unsignedValue .pciId = none ∨ numaNode nodes device = -1 then none
  else if device.value .root = "dedicated".toList then some .dedicated
  else some (.node (numaNode nodes device))

/-- The number of devices of a group. -/
def countOf (nodes : List (ℤ × ℤ)) (devs : List PciAttribute) (g : PortGroup) : ℕ :=
  devs.countP fun d => groupOf nodes d = some g

/-- An address of the machine. -/
def addressText (bus slot : ℕ) : Text := hexText 2 bus ++ ":".toList ++ hexText 2 slot ++ ".0".toList

/-- The bus in the attribute `VM_BUS` of a device on the flat bus. -/
def flatBus (device : PciAttribute) : Option ℕ :=
  let e := getUnsigned 16 32 (device.value .vmBus)
  if e.ok && e.rest.isEmpty then some e.value else none

theorem groupOf_valid {nodes : List (ℤ × ℤ)} {device : PciAttribute} {g : PortGroup}
    (h : groupOf nodes device = some g) : g.Valid := by
  unfold groupOf at h
  split at h
  · exact absurd h (by simp)
  · rename_i hnot
    obtain ⟨-, hnode⟩ := not_or.mp hnot
    split at h
    · obtain rfl := Option.some.inj h
      trivial
    · obtain rfl := Option.some.inj h
      unfold numaNode at hnode ⊢
      split at hnode
      · exact absurd rfl hnode
      · rename_i hnodes
        rw [if_neg hnodes]
        cases hint : device.intValue .numaNode with
        | none =>
          rw [hint] at hnode
          exact absurd rfl hnode
        | some n =>
          rw [hint] at hnode
          unfold PciAttribute.intValue at hint
          dsimp only at hint
          split_ifs at hint with h1 h2
          have hbounds := getSigned_bounds 10 32 (device.value .numaNode)
          rw [Option.some.inj hint] at hbounds
          exact ⟨hbounds.1, hbounds.2, hnode⟩

/-- The ports that are taken are the first ones of each group, and not more than it has. -/
def PortsAre (total : ℕ) (count : PortGroup → ℕ) (palloc : PortAlloc) : Prop :=
  ∀ g : PortGroup, g.Valid → count g ≤ g.capacity total ∧ palloc g.key = g.taken total (count g)

/-- A device on a root port. -/
def onPort (device : PciAttribute) (port bus : ℕ) : PciAttribute :=
  (device.replace .vmBusIndex (Nat.toDigits 10 port)).replace .vmAddress (addressText bus 0)

/-- The place of a device on the flat bus. -/
def flatPlace (isQ35 : Bool) (id : ℕ) (device : PciAttribute) : ℕ × ℕ :=
  if isQ35 then ((id + 1) % 2 ^ 32, 0) else ((flatBus device).getD 0, (id + 1) % 2 ^ 32)

/-- A device on the flat bus. -/
def onFlatBus (device : PciAttribute) (bus slot : ℕ) : PciAttribute :=
  let device := ((device.remove .vmBusIndex).replace .vmDomain "0x0000".toList).replace .vmFunction
    "0".toList
  ((device.replace .vmSlot (hexPrefixed slot)).replace .vmBus (hexPrefixed bus)).replace
    .vmAddress (addressText bus slot)

theorem hexText_zero : ":00.0".toList = ":".toList ++ hexText 2 0 ++ ".0".toList := by decide

theorem PortsAre.insert {total : ℕ} {count : PortGroup → ℕ} {palloc : PortAlloc} {g : PortGroup}
    (h : PortsAre total count palloc) (hg : g.Valid) (hfree : count g < g.capacity total) :
    PortsAre total (Function.update count g (count g + 1))
      (Function.update palloc g.key (Insert.insert (g.port total (count g)) (palloc g.key))) := by
  intro g' hg'
  by_cases heq : g' = g
  · subst heq
    rw [Function.update_self, Function.update_self, PortGroup.taken_succ, (h g' hg').2]
    exact ⟨hfree, rfl⟩
  · rw [Function.update_of_ne (fun hkey => heq (PortGroup.key_injective hg' hg hkey)),
      Function.update_of_ne heq]
    exact h g' hg'

theorem PortGroup.firstPort_lt (total : ℕ) (g : PortGroup) : g.firstPort total < 2 ^ 32 := by
  cases g with
  | dedicated => exact Nat.mod_lt _ (by norm_num)
  | node n =>
    simp only [PortGroup.firstPort, toUnsigned]
    omega

theorem PortGroup.firstBus_lt (g : PortGroup) : g.firstBus < 2 ^ 32 := by
  cases g with
  | dedicated => simp [PortGroup.firstBus]
  | node n =>
    simp only [PortGroup.firstBus, toUnsigned]
    omega

/-- `set_pci_address` for a device of a group. -/
theorem setNumaAddress_group {device : PciAttribute} {palloc : PortAlloc} {n : ℤ} {total : ℕ}
    {g : PortGroup}
    (hg : g = if device.value .root = "dedicated".toList then .dedicated else .node n) :
    setNumaAddress device palloc n total =
      match freePort (palloc g.key) ((g.firstPort total + g.portInc * g.slots) % 2 ^ 32) g.portInc
        g.busInc g.slots (g.firstPort total) g.firstBus with
      | none => (-1, device, palloc)
      | some (p, bus) =>
        if p = 0 then (-1, device, palloc)
        else (0, onPort device p bus,
          Function.update palloc g.key (Insert.insert p (palloc g.key))) := by
  have haddress : ∀ bus, hexText 2 bus ++ ":00.0".toList = addressText bus 0 := by
    intro bus
    rw [hexText_zero, addressText, ← List.append_assoc, ← List.append_assoc]
  unfold setNumaAddress onPort
  by_cases hroot : device.value .root = "dedicated".toList
  · rw [if_pos hroot] at hg
    subst hg
    simp only [hroot, decide_true, if_true, haddress]
    rfl
  · rw [if_neg hroot] at hg
    subst hg
    simp only [hroot, decide_false, Bool.false_eq_true, if_false, haddress]
    rfl

/-- **A device of a node, or a dedicated one**, gets the next port of its group. -/
theorem setNumaAddress_eq {nodes : List (ℤ × ℤ)} {count : PortGroup → ℕ} {palloc : PortAlloc}
    {device : PciAttribute} {g : PortGroup} (h : PortsAre (totalNodes nodes) count palloc)
    (hg : groupOf nodes device = some g) :
    setNumaAddress device palloc (numaNode nodes device) (totalNodes nodes) =
      if count g < g.capacity (totalNodes nodes) then
        (0, onPort device (g.port (totalNodes nodes) (count g)) (g.bus (count g)),
          Function.update palloc g.key
            (Insert.insert (g.port (totalNodes nodes) (count g)) (palloc g.key)))
      else (-1, device, palloc) := by
  obtain ⟨hcount, hports⟩ := h g (groupOf_valid hg)
  have hgroup : g = if device.value .root = "dedicated".toList then .dedicated
      else .node (numaNode nodes device) := by
    unfold groupOf at hg
    split at hg
    · exact absurd hg (by simp)
    · split at hg
      · rename_i hroot
        rw [if_pos hroot, Option.some.inj hg]
      · rename_i hroot
        rw [if_neg hroot, Option.some.inj hg]
  have hfirst := g.firstPort_lt (totalNodes nodes)
  rw [setNumaAddress_group hgroup, hports]
  by_cases hfit : g.firstPort (totalNodes nodes) + g.portInc * g.slots < 2 ^ 32
  · have hstart : freePort (g.taken (totalNodes nodes) (count g))
        ((g.firstPort (totalNodes nodes) + g.portInc * g.slots) % 2 ^ 32) g.portInc g.busInc g.slots
        (g.firstPort (totalNodes nodes)) g.firstBus =
        if count g < g.slots then some (g.port (totalNodes nodes) (count g), g.bus (count g))
        else none := by
      rw [Nat.mod_eq_of_lt hfit]
      have heq := freePort_eq (c := count g) hfit g.slots (Nat.zero_le _) (Nat.zero_add _)
      rw [PortGroup.bus, Nat.mul_zero, Nat.add_zero, Nat.mod_eq_of_lt g.firstBus_lt] at heq
      exact heq
    rw [hstart]
    by_cases hzero : g.firstPort (totalNodes nodes) = 0
    · -- the first port is `0`: no device has got one, and none gets one
      have hcap : g.capacity (totalNodes nodes) = 0 := if_pos (Or.inl hzero)
      rw [hcap] at hcount ⊢
      rw [if_neg (by omega : ¬count g < 0)]
      split_ifs with hslots
      · dsimp only
        rw [PortGroup.port, hzero, Nat.le_zero.mp hcount]
        rfl
      · rfl
    · have hcap : g.capacity (totalNodes nodes) = g.slots :=
        if_neg (not_or.mpr ⟨hzero, by omega⟩)
      rw [hcap]
      split_ifs with hslots
      · dsimp only
        rw [if_neg (by rw [PortGroup.port]; omega)]
      · rfl
  · have hcap : g.capacity (totalNodes nodes) = 0 := if_pos (Or.inr (by omega))
    have hsmall : g.portInc * g.slots < 2 ^ 32 := by
      cases g <;> simp [PortGroup.portInc, PortGroup.slots]
    rw [freePort_none (by omega), hcap, if_neg (by omega)]

theorem countOf_concat (nodes : List (ℤ × ℤ)) (earlier : List PciAttribute) (device : PciAttribute)
    (g : PortGroup) :
    countOf nodes (earlier ++ [device]) g =
      countOf nodes earlier g + if groupOf nodes device = some g then 1 else 0 := by
  rw [countOf, countOf, List.countP_append, List.countP_singleton]
  simp

/-- There is an address for the device: a port of its group is left, or its bus is a number. -/
def Ready (nodes : List (ℤ × ℤ)) (earlier : List PciAttribute) (device : PciAttribute) : Prop :=
  (∀ g, groupOf nodes device = some g → countOf nodes earlier g < g.capacity (totalNodes nodes)) ∧
    (groupOf nodes device = none → device.unsignedValue .pciId ≠ none → flatBus device ≠ none)

/-- A device with its address; the devices before it are the ones that have got one. -/
def withAddress (isQ35 : Bool) (nodes : List (ℤ × ℤ)) (earlier : List PciAttribute)
    (device : PciAttribute) : PciAttribute :=
  match device.unsignedValue .pciId, groupOf nodes device with
  | none, _ => device
  | some _, some g =>
    onPort device (g.port (totalNodes nodes) (countOf nodes earlier g))
      (g.bus (countOf nodes earlier g))
  | some id, none => onFlatBus device (flatPlace isQ35 id device).1 (flatPlace isQ35 id device).2

/-- `set_pci_address` on the flat bus. -/
theorem setFlatAddress_eq (device : PciAttribute) (palloc : PortAlloc) (id : ℕ) (isQ35 : Bool) :
    ((setFlatAddress device palloc id isQ35).1 = 0 ↔ flatBus device ≠ none) ∧
      ((setFlatAddress device palloc id isQ35).1 = 0 →
        (setFlatAddress device palloc id isQ35).2 =
          (onFlatBus device (flatPlace isQ35 id device).1 (flatPlace isQ35 id device).2, palloc)) := by
  have hbus : (((device.remove .vmBusIndex).replace .vmDomain "0x0000".toList).replace .vmFunction
      "0".toList).value .vmBus = device.value .vmBus := by
    simp [PciAttribute.value, PciAttribute.replace, PciAttribute.remove]
  unfold setFlatAddress flatBus
  dsimp only
  rw [hbus]
  split
  · rename_i hread
    refine ⟨iff_of_true rfl (by simp), fun _ => ?_⟩
    unfold flatPlace flatBus
    rw [if_pos hread]
    cases isQ35 <;> rfl
  · rename_i hread
    exact ⟨iff_of_false (by simp) (by simp), fun h => absurd h (by simp)⟩

theorem setPciAddress_id {device : PciAttribute} {id : ℕ} (hid : device.unsignedValue .pciId = some id)
    (palloc : PortAlloc) (isQ35 : Bool) (nodes : List (ℤ × ℤ)) :
    setPciAddress device palloc isQ35 nodes =
      if numaNode nodes device ≠ -1 then
        setNumaAddress device palloc (numaNode nodes device) (totalNodes nodes)
      else setFlatAddress device palloc id isQ35 := by
  unfold setPciAddress
  rw [hid]
  rfl

/-- **`set_pci_address`.** -/
theorem setPciAddress_spec {nodes : List (ℤ × ℤ)} {earlier : List PciAttribute} {palloc : PortAlloc}
    (h : PortsAre (totalNodes nodes) (countOf nodes earlier) palloc) (device : PciAttribute)
    (isQ35 : Bool) :
    ((setPciAddress device palloc isQ35 nodes).1 = 0 ↔ Ready nodes earlier device) ∧
      ((setPciAddress device palloc isQ35 nodes).1 = 0 →
        (setPciAddress device palloc isQ35 nodes).2.1 = withAddress isQ35 nodes earlier device ∧
          PortsAre (totalNodes nodes) (countOf nodes (earlier ++ [device]))
            (setPciAddress device palloc isQ35 nodes).2.2) := by
  have hkeep : groupOf nodes device = none →
      PortsAre (totalNodes nodes) (countOf nodes (earlier ++ [device])) palloc := by
    intro hnone
    have hcount : countOf nodes (earlier ++ [device]) = countOf nodes earlier := by
      funext g
      rw [countOf_concat, hnone]
      rfl
    rw [hcount]
    exact h
  rw [withAddress, Ready]
  cases hid : device.unsignedValue .pciId with
  | none =>
    have hnone : groupOf nodes device = none := if_pos (Or.inl hid)
    have hset : setPciAddress device palloc isQ35 nodes = (0, device, palloc) := by
      unfold setPciAddress
      rw [hid]
    rw [hset, hnone]
    exact ⟨iff_of_true rfl ⟨fun g hg => absurd hg (by simp), fun _ hne => absurd rfl hne⟩,
      fun _ => ⟨rfl, hkeep hnone⟩⟩
  | some id =>
    rw [setPciAddress_id hid]
    cases hg : groupOf nodes device with
    | none =>
      have hnode : ¬numaNode nodes device ≠ -1 := by
        intro hne
        unfold groupOf at hg
        rw [if_neg (by simp [hid, hne])] at hg
        split at hg
        · exact absurd hg (by simp)
        · exact absurd hg (by simp)
      obtain ⟨hiff, hresult⟩ := setFlatAddress_eq device palloc id isQ35
      rw [if_neg hnode]
      refine ⟨hiff.trans ⟨fun hb => ⟨fun g hg' => absurd hg' (by simp), fun _ _ => hb⟩,
        fun hr => hr.2 rfl (by simp)⟩, fun hzero => ?_⟩
      rw [hresult hzero]
      exact ⟨rfl, hkeep hg⟩
    | some g =>
      have hnode : numaNode nodes device ≠ -1 := by
        intro heq
        unfold groupOf at hg
        rw [if_pos (Or.inr heq)] at hg
        exact absurd hg (by simp)
      have hcount : countOf nodes (earlier ++ [device]) =
          Function.update (countOf nodes earlier) g (countOf nodes earlier g + 1) := by
        funext g'
        rw [countOf_concat, hg]
        by_cases heq : g = g'
        · subst heq
          rw [if_pos rfl, Function.update_self]
        · rw [if_neg (fun h => heq (Option.some.inj h)), Function.update_of_ne (fun h => heq h.symm),
            Nat.add_zero]
      rw [if_pos hnode, setNumaAddress_eq h hg]
      by_cases hfree : countOf nodes earlier g < g.capacity (totalNodes nodes)
      · rw [if_pos hfree, hcount]
        refine ⟨iff_of_true rfl ⟨?_, fun hne => absurd hne (by simp)⟩,
          fun _ => ⟨rfl, h.insert (groupOf_valid hg) hfree⟩⟩
        rintro g' hg'
        rwa [← Option.some.inj hg']
      · rw [if_neg hfree]
        refine ⟨iff_of_false (by simp) (fun hr => hfree (hr.1 g rfl)), fun hzero => ?_⟩
        exact absurd hzero (by simp)

/-! ## Several devices -/

/-- The devices, with the attributes that they have when they get their address. -/
def handed (sr : PciCapacity) (pairs : List (PciAttribute × PCIDevice)) : List PciAttribute :=
  pairs.map fun p => pciAttribute p.1 p.2 true sr.vgpuProfile

/-- There is an address for every device. -/
def AllReady (nodes : List (ℤ × ℤ)) : List PciAttribute → List PciAttribute → Prop
  | _, [] => True
  | earlier, device :: devs => Ready nodes earlier device ∧ AllReady nodes (earlier ++ [device]) devs

/-- The devices with their addresses. -/
def withAddresses (isQ35 : Bool) (nodes : List (ℤ × ℤ)) :
    List PciAttribute → List PciAttribute → List PciAttribute
  | _, [] => []
  | earlier, device :: devs =>
    withAddress isQ35 nodes earlier device :: withAddresses isQ35 nodes (earlier ++ [device]) devs

/-- **The devices get their addresses one after the other.** -/
theorem addressAll_eq (sr : PciCapacity) (pairs : List (PciAttribute × PCIDevice)) :
    ∀ (earlier : List PciAttribute) (palloc : PortAlloc),
      PortsAre (totalNodes sr.nodes) (countOf sr.nodes earlier) palloc →
      ((∃ r, addressAll sr pairs palloc = some r) ↔ AllReady sr.nodes earlier (handed sr pairs)) ∧
        ∀ r, addressAll sr pairs palloc = some r →
          r.1 = withAddresses sr.isQ35 sr.nodes earlier (handed sr pairs) := by
  induction pairs with
  | nil =>
    intro earlier palloc _
    refine ⟨iff_of_true ⟨_, rfl⟩ trivial, ?_⟩
    rintro r hr
    rw [← Option.some.inj hr]
    rfl
  | cons p pairs ih =>
    intro earlier palloc h
    obtain ⟨device, d⟩ := p
    obtain ⟨hiff, hresult⟩ := setPciAddress_spec h (pciAttribute device d true sr.vgpuProfile)
      sr.isQ35
    rw [addressAll]
    by_cases hzero : (addressOne sr device d palloc).1 = 0
    · obtain ⟨hdevice, hports⟩ := hresult hzero
      obtain ⟨hrest, hvalue⟩ := ih _ _ hports
      rw [if_pos hzero]
      constructor
      · constructor
        · rintro ⟨r, hr⟩
          obtain ⟨q, hq, -⟩ := Option.map_eq_some_iff.mp hr
          exact ⟨hiff.mp hzero, hrest.mp ⟨q, hq⟩⟩
        · rintro ⟨-, hready⟩
          obtain ⟨q, hq⟩ := hrest.mpr hready
          exact ⟨_, Option.map_eq_some_iff.mpr ⟨q, hq, rfl⟩⟩
      · intro r hr
        obtain ⟨q, hq, rfl⟩ := Option.map_eq_some_iff.mp hr
        rw [hvalue q hq]
        exact congrArg (· :: _) hdevice
    · rw [if_neg hzero]
      refine ⟨iff_of_false (by simp) (fun hready => hzero (hiff.mpr hready.1)), ?_⟩
      intro r hr
      exact absurd hr (by simp)

/-- At the start no port is taken. -/
theorem portsAre_nil (nodes : List (ℤ × ℤ)) :
    PortsAre (totalNodes nodes) (countOf nodes []) (fun _ => ∅) :=
  fun _ _ => ⟨Nat.zero_le _, rfl⟩

end HostSharePCI
