/-
# The devices of a host over its whole life

The ownership of the devices (`Owned`) lasts in the runs whose operations are `Regular`.  That is a
condition on the host and on the operation before it is made: for every device that a machine gets
there is an address in the machine (`Addressable`: its `VM_BUS` is a number in base 16, or a root port
of its node is left), a failed migration goes back to devices that are there, and the identifiers in
the reports of new devices are numbers.
-/
import OpenNebula.PciPorts

open TextNumber

namespace HostSharePCI

open PciMap

/-! ## Regular operations -/

/-- There is an address in the machine for the devices that the first requests get, however many of
them are served. -/
def Addressable (m : PciMap) (sr : PciCapacity) : Prop :=
  ∀ served picks, served <+: order sr.pci → FirstFit addFree m served [] picks →
    AllReady sr.nodes [] (handed sr (served.zip (picks.map Prod.snd)))

/-- The condition on an operation.  The number -1 stands for no machine. -/
def Regular (m : PciMap) : Op → Prop
  | .add sr => sr.vmid ≠ -1 → Addressable m sr
  | .del _ => True
  | .revert devs => ∀ device ∈ devs, ∀ t, device .prevAddress = some t → t ≠ [] → t ∈ m.keys
  | .setMonitorization reports conf => ReadableNew conf m reports

theorem Addressable.not_noAddress {m m' : PciMap} {sr : PciCapacity} (h : Addressable m sr)
    (hvmid : sr.vmid ≠ -1) (hnodup : m.keys.Nodup) {devs : List PciAttribute} :
    add m sr ≠ some (.noAddress, devs, m') := by
  intro hadd
  obtain ⟨served, picks, hprefix, hfit, hnone⟩ := add_noAddress hvmid hnodup hadd
  obtain ⟨hiff, -⟩ := addressAll_eq sr (served.zip (picks.map Prod.snd)) [] (fun _ => ∅)
    (portsAre_nil sr.nodes)
  obtain ⟨r, hr⟩ := hiff.mpr (h served picks hprefix hfit)
  rw [hnone] at hr
  exact absurd hr (by simp)

/-! ## Runs -/

/-- The operation deletes the machine. -/
def Deletes (v : ℤ) : Op → Prop
  | .del sr => sr.vmid = v
  | _ => False

/-- **One operation.**  It follows no null pointer, it keeps the ownership, and a device that a
machine holds stays with it unless the machine is deleted. -/
theorem step_spec {m : PciMap} (h : m.Owned) {op : Op} (hreg : Regular m op) :
    ∃ m', step m op = some m' ∧ m'.Owned ∧
      ∀ k v, 0 ≤ v → m.Held k v → m'.Held k v ∨ Deletes v op := by
  have hfree : ∀ {m' : PciMap}, Keeps (fun v => v ≠ -1) m m' →
      ∀ k v, 0 ≤ v → m.Held k v → m'.Held k v ∨ Deletes v op := by
    intro m' hkeeps k v hv hheld
    exact Or.inl (hkeeps k v (by omega) hheld)
  cases op with
  | add sr =>
    obtain ⟨outcome, devs, m', hadd, hspec⟩ := add_spec h sr
    refine ⟨m', by simp [step, hadd], hspec.owned ?_, hfree hspec.keeps⟩
    rintro rfl
    by_contra hvmid
    exact (hreg hvmid).not_noAddress hvmid h.nodup hadd
  | del sr =>
    obtain ⟨devs', m', hdel, howned, hkeeps⟩ := delDevices_spec sr.vmid sr.pci m h
    refine ⟨m', by simp [step, del, hdel], howned, ?_⟩
    intro k v _ hheld
    by_cases hvm : v = sr.vmid
    · exact Or.inr hvm.symm
    · exact Or.inl (hkeeps k v hvm hheld)
  | revert devs =>
    have heq : (revert m devs).2 = m := revertDevices_eq devs [] (Or.inl rfl) hreg
    refine ⟨m, by rw [step, heq], h, hfree (Keeps.refl _ _)⟩
  | setMonitorization reports conf =>
    obtain ⟨m', heq, howned, hkeeps⟩ := setMonitorization_spec h reports conf hreg
    exact ⟨m', heq, howned, hfree hkeeps⟩

theorem owned_nil : PciMap.Owned [] := ⟨List.nodup_nil, by simp⟩

/-- **Ownership of the devices.**  In every regular run of a host, every key of the map has its
device, a device is held by at most one machine, the field `vmid` is the number in the attribute
`VMID`, and the next regular operation leaves a device with the machine that holds it unless it
deletes the machine. -/
theorem owned_of_regular {m : PciMap} (hrun : Transition.Reach step Regular [] m) :
    (∀ k ∈ m.keys, ∃ d, (k, some d) ∈ m ∧ d.address = k) ∧
      (∀ k v w, m.Held k v → m.Held k w → v = w) ∧
      (∀ k d, (k, some d) ∈ m → d.vmidAttr.value = some d.vmid) ∧
      ∀ op, Regular m op → ∃ m', step m op = some m' ∧
        ∀ k v, 0 ≤ v → m.Held k v → m'.Held k v ∨ Deletes v op := by
  have hinv : m.Owned := by
    refine hrun.inv owned_nil ?_
    intro s op t hs hreg hstep
    obtain ⟨t', hstep', howned, -⟩ := step_spec hs hreg
    rw [hstep] at hstep'
    rw [Option.some.inj hstep']
    exact howned
  refine ⟨?_, fun k v w => hinv.held_unique, ?_, ?_⟩
  · intro k hk
    obtain ⟨o, ho⟩ := mem_keys_iff.mp hk
    obtain ⟨d, rfl, haddr, -⟩ := hinv.entry k o ho
    exact ⟨d, ho, haddr⟩
  · intro k d hd
    obtain ⟨d', hd', -, hvmid⟩ := hinv.entry k _ hd
    rw [Option.some.inj hd']
    exact hvmid
  · intro op hreg
    obtain ⟨m', hstep, -, hheld⟩ := step_spec hinv hreg
    exact ⟨m', hstep, hheld⟩

/-- The report of a device that no machine uses. -/
def freeReport : PciReport where
  attrs := fun
    | .address => some "0000:01:00.0".toList
    | .shortAddress => some "01:00.0".toList
    | .vendor => some "10de".toList
    | _ => none
  vmid := "-1".toList

/-- The request of the machine 7 for the device at a short address, on a bus. -/
def busRequest (bus : String) : PciCapacity where
  vmid := 7
  isQ35 := false
  vgpuProfile := []
  pci := [fun
    | .shortAddress => some "01:00.0".toList
    | .pciId => some "0".toList
    | .vmBus => some bus.toList
    | _ => none]
  nodes := []

/-- The configuration without filters. -/
def allDevices : PciConf := ⟨[], []⟩

theorem regular_freeReport : Regular [] (.setMonitorization [freeReport] allDevices) := by
  intro front r rest heq _ _ _
  have hr : r ∈ [freeReport] := heq ▸ List.mem_append_right front List.mem_cons_self
  rw [List.mem_singleton.mp hr]
  exact Or.inl (by decide)

theorem flatBus_pciAttribute (device : PciAttribute) (pci : PCIDevice) (vprofile : Text) :
    flatBus (pciAttribute device pci true vprofile) = flatBus device := by
  have hvalue : (pciAttribute device pci true vprofile).value .vmBus = device.value .vmBus := by
    rw [PciAttribute.value, pciAttribute_eq device pci vprofile (by decide)]
    simp [PciAttribute.value]
  rw [flatBus, flatBus, hvalue]

/-- There is a bus for every device that the machine 7 may get. -/
theorem regular_busRequest (m : PciMap) : Regular m (.add (busRequest "0x01")) := by
  intro _ served picks hprefix hfit
  rcases served with _ | ⟨device, served⟩
  · trivial
  · obtain ⟨rfl, hnil⟩ := List.cons_prefix_cons.mp hprefix
    obtain rfl := List.prefix_nil.mp hnil
    rcases picks with _ | ⟨e, picks⟩
    · trivial
    · refine ⟨⟨fun g hg => ?_, fun _ _ => ?_⟩, trivial⟩
      · exact absurd (hg.symm.trans (if_pos (Or.inr rfl))) (by simp)
      · rw [flatBus_pciAttribute]
        dsimp only
        decide

/-- The device is reported and the machine 7 gets it. -/
theorem owned_busRequest :
    ∃ m₁ m₂, step [] (.setMonitorization [freeReport] allDevices) = some m₁ ∧
      step m₁ (.add (busRequest "0x01")) = some m₂ ∧ m₂.Held "0000:01:00.0".toList 7 ∧
      ∀ k d, (k, some d) ∈ m₂ → d.vmidAttr.value = some d.vmid := by
  refine ⟨_, _, rfl, rfl, ⟨_, List.mem_singleton.mpr rfl, rfl⟩, ?_⟩
  refine (owned_of_regular ?_).2.2.1
  refine (Transition.Reach.refl.tail regular_freeReport rfl).tail (regular_busRequest _) ?_
  rfl

/-- A machine that comes back to a device that the host does not have. -/
def lostDevice : PciAttribute
  | .prevAddress => some "0000:02:00.0".toList
  | _ => none

/-- **A wrong bus and a lost device.**  After an assignment on a wrong bus the machine 7 has the device
in the field `vmid`, and the attribute says that nobody has it; a failed migration to a device that is
not there leaves a key without a device. -/
theorem not_owned_wrongBus :
    (∃ m, Transition.Run step [] m ∧ m.Held "0000:01:00.0".toList 7 ∧
      ¬ ∀ k d, (k, some d) ∈ m → d.vmidAttr.value = some d.vmid) ∧
    ∃ m, Transition.Run step [] m ∧ ¬ ∀ k ∈ m.keys, ∃ d, (k, some d) ∈ m ∧ d.address = k := by
  have hstart : Transition.Run step ([] : PciMap) [] := Transition.Reach.refl
  constructor
  · have hrun := hstart.tail (e := .setMonitorization [freeReport] allDevices) trivial rfl
    refine ⟨_, hrun.tail (e := .add (busRequest "zz")) trivial rfl,
      ⟨_, List.mem_singleton.mpr rfl, rfl⟩, ?_⟩
    intro h
    have hvmid := h _ _ (List.mem_singleton.mpr rfl)
    exact absurd hvmid (by decide)
  · refine ⟨_, hstart.tail (e := .revert [lostDevice]) trivial rfl, ?_⟩
    intro h
    obtain ⟨d, hd, -⟩ := h _ (List.mem_singleton.mpr rfl)
    exact absurd (Prod.mk.inj (List.mem_singleton.mp hd)).2 (Option.some_ne_none d)

end HostSharePCI
