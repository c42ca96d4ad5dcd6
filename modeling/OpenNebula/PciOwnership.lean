/-
# Who holds the PCI devices of a host

Every key of the map has its device, and the field `vmid` of a device is the number in its attribute
`VMID` (`Owned`).  Each operation is followed here: an assignment that finds no address in the machine
resets the attribute and not the field, a failed migration makes a null entry for an address that is
not there, and a report may have an identifier that is not a number; otherwise the ownership is kept,
and a device that a machine holds stays with it until the machine is deleted.
-/
import OpenNebula.HostSharePCI

namespace PciMap

variable {m : PciMap} {key k : Text} {d : PCIDevice} {o : Option PCIDevice}

/-! ## The map -/

theorem mem_keys_of_mem (h : (k, o) ∈ m) : k ∈ m.keys := List.mem_map_of_mem h

theorem mem_keys_iff : k ∈ m.keys ↔ ∃ o, (k, o) ∈ m := by
  rw [keys, List.mem_map]
  constructor
  · rintro ⟨⟨k', o⟩, hmem, rfl⟩
    exact ⟨o, hmem⟩
  · rintro ⟨o, hmem⟩
    exact ⟨(k, o), hmem, rfl⟩

theorem mem_of_find (h : m.find key = some o) : (key, o) ∈ m := by
  obtain ⟨e, he, rfl⟩ := Option.map_eq_some_iff.mp h
  have hkey : e.1 = key := by simpa using List.find?_some he
  rw [← hkey]
  exact List.mem_of_find?_eq_some he

theorem not_mem_keys_of_find (h : m.find key = none) : key ∉ m.keys := by
  intro hmem
  obtain ⟨o, ho⟩ := mem_keys_iff.mp hmem
  have hnone := List.find?_eq_none.mp (Option.map_eq_none_iff.mp h) (key, o) ho
  simp at hnone

theorem eq_of_mem (hnodup : m.keys.Nodup) {o o' : Option PCIDevice} (h : (k, o) ∈ m)
    (h' : (k, o') ∈ m) : o = o' := by
  have heq := List.inj_on_of_nodup_map hnodup h h' rfl
  exact (Prod.mk.inj heq).2

theorem mem_set : (k, o) ∈ m.set key d ↔
    (k = key ∧ key ∈ m.keys ∧ o = some d) ∨ (k ≠ key ∧ (k, o) ∈ m) := by
  rw [set, List.mem_map]
  constructor
  · rintro ⟨⟨k', o'⟩, hmem, heq⟩
    split_ifs at heq with hk
    · obtain ⟨rfl, rfl⟩ := Prod.mk.inj heq
      exact Or.inl ⟨rfl, hk ▸ mem_keys_of_mem hmem, rfl⟩
    · obtain ⟨rfl, rfl⟩ := Prod.mk.inj heq
      exact Or.inr ⟨hk, hmem⟩
  · rintro (⟨rfl, hmem, rfl⟩ | ⟨hk, hmem⟩)
    · obtain ⟨o', ho'⟩ := mem_keys_iff.mp hmem
      exact ⟨_, ho', if_pos rfl⟩
    · exact ⟨_, hmem, if_neg hk⟩

theorem keys_set : (m.set key d).keys = m.keys := by
  rw [keys, set, List.map_map]
  refine List.map_congr_left fun e _ => ?_
  by_cases hk : e.1 = key
  · simp [hk]
  · simp [hk]

theorem insert_perm : (m.insert key o).Perm ((key, o) :: m) := by
  have hperm : (m.insert key o).Perm
      ((key, o) :: (m.takeWhile (fun e => e.1 < key) ++ m.dropWhile fun e => e.1 < key)) :=
    List.perm_middle
  rw [List.takeWhile_append_dropWhile] at hperm
  exact hperm

theorem keys_insert_nodup (hnodup : m.keys.Nodup) (hkey : key ∉ m.keys) :
    (m.insert key o).keys.Nodup := by
  rw [keys, (insert_perm.map Prod.fst).nodup_iff, List.map_cons, List.nodup_cons]
  exact ⟨hkey, hnodup⟩

theorem mem_erase : (k, o) ∈ m.erase key ↔ (k, o) ∈ m ∧ k ≠ key := by
  rw [erase, List.mem_filter, decide_eq_true_eq]

/-! ## Ownership -/

/-- Every key has its device, and the field `vmid` is the number in the attribute `VMID`. -/
structure Owned (m : PciMap) : Prop where
  nodup : m.keys.Nodup
  entry : ∀ k o, (k, o) ∈ m → ∃ d, o = some d ∧ d.address = k ∧ d.vmidAttr.value = some d.vmid

/-- The machine `v` holds the device with the address `k`. -/
def Held (m : PciMap) (k : Text) (v : ℤ) : Prop := ∃ d, (k, some d) ∈ m ∧ d.vmid = v

/-- The devices that the machines of a kind hold stay with them. -/
def Keeps (P : ℤ → Prop) (m m' : PciMap) : Prop := ∀ k v, P v → m.Held k v → m'.Held k v

theorem Keeps.refl (P : ℤ → Prop) (m : PciMap) : Keeps P m m := fun _ _ _ h => h

theorem Keeps.trans {P : ℤ → Prop} {m m' m'' : PciMap} (h : Keeps P m m') (h' : Keeps P m' m'') :
    Keeps P m m'' :=
  fun k v hv hheld => h' k v hv (h k v hv hheld)

/-- A device is held by one machine. -/
theorem Owned.held_unique (h : m.Owned) {v w : ℤ} (hv : m.Held k v) (hw : m.Held k w) : v = w := by
  obtain ⟨d, hd, rfl⟩ := hv
  obtain ⟨d', hd', rfl⟩ := hw
  rw [Option.some.inj (eq_of_mem h.nodup hd hd')]

/-- A change of one device. -/
theorem Owned.set (h : m.Owned) (hmem : (key, some d) ∈ m) {d' : PCIDevice}
    (haddr : d'.address = d.address) (hvmid : d'.vmidAttr.value = some d'.vmid) :
    (m.set key d').Owned := by
  constructor
  · rw [keys_set]
    exact h.nodup
  · intro k o hk
    rcases mem_set.mp hk with ⟨rfl, -, rfl⟩ | ⟨-, hk'⟩
    · obtain ⟨d₀, hd₀, haddr₀, -⟩ := h.entry k _ hmem
      refine ⟨d', rfl, ?_, hvmid⟩
      rw [haddr, Option.some.inj hd₀, haddr₀]
    · exact h.entry k o hk'

theorem Owned.keeps_set (h : m.Owned) (hmem : (key, some d) ∈ m) {d' : PCIDevice}
    {P : ℤ → Prop} (hP : P d.vmid → d'.vmid = d.vmid) : Keeps P m (m.set key d') := by
  rintro k v hv ⟨e, he, rfl⟩
  by_cases hk : k = key
  · subst hk
    have heq := Option.some.inj (eq_of_mem h.nodup he hmem)
    rw [heq] at hv ⊢
    exact ⟨d', mem_set.mpr (Or.inl ⟨rfl, mem_keys_of_mem hmem, rfl⟩), hP hv⟩
  · exact ⟨e, mem_set.mpr (Or.inr ⟨hk, he⟩), rfl⟩

theorem Owned.insert (h : m.Owned) (hkey : key ∉ m.keys) (haddr : d.address = key)
    (hvmid : d.vmidAttr.value = some d.vmid) : (m.insert key (some d)).Owned := by
  refine ⟨keys_insert_nodup h.nodup hkey, ?_⟩
  intro k o hk
  rcases List.mem_cons.mp (insert_perm.mem_iff.mp hk) with heq | hk'
  · obtain ⟨rfl, rfl⟩ := Prod.mk.inj heq
    exact ⟨d, rfl, haddr, hvmid⟩
  · exact h.entry k o hk'

theorem keeps_insert (P : ℤ → Prop) : Keeps P m (m.insert key o) := by
  rintro k v - ⟨e, he, rfl⟩
  exact ⟨e, insert_perm.mem_iff.mpr (List.mem_cons_of_mem _ he), rfl⟩

theorem Owned.erase (h : m.Owned) (key : Text) : (m.erase key).Owned := by
  constructor
  · exact h.nodup.sublist (List.filter_sublist.map _)
  · intro k o hk
    exact h.entry k o (mem_erase.mp hk).1

theorem Owned.keeps_erase (h : m.Owned) (hmem : (key, some d) ∈ m) {P : ℤ → Prop}
    (hP : ¬ P d.vmid) : Keeps P m (m.erase key) := by
  rintro k v hv ⟨e, he, rfl⟩
  refine ⟨e, mem_erase.mpr ⟨he, ?_⟩, rfl⟩
  rintro rfl
  rw [Option.some.inj (eq_of_mem h.nodup he hmem)] at hv
  exact hP hv

/-- No entry is null. -/
theorem Owned.find_cases (h : m.Owned) (key : Text) :
    m.find key = none ∨ ∃ d, m.find key = some (some d) ∧ (key, some d) ∈ m := by
  cases hfind : m.find key with
  | none => exact Or.inl rfl
  | some o =>
    have hmem := mem_of_find hfind
    obtain ⟨d, rfl, -, -⟩ := h.entry key o hmem
    exact Or.inr ⟨d, rfl, hmem⟩

end PciMap

namespace HostSharePCI

open PciMap

/-! ## Assignment -/

/-- A search in a map without null entries ends, and it finds a device it may take. -/
theorem pick_cases (choose : PCIDevice → Choice) (m : PciMap)
    (h : ∀ k o, (k, o) ∈ m → o ≠ none) :
    pick choose m = .noDevice ∨
      ∃ key d, pick choose m = .found key d ∧ (key, some d) ∈ m ∧ choose d = .take := by
  induction m with
  | nil => exact Or.inl rfl
  | cons e m ih =>
    obtain ⟨key, o⟩ := e
    cases o with
    | none => exact absurd rfl (h key none List.mem_cons_self)
    | some d =>
      rw [pick]
      cases hchoice : choose d with
      | skip =>
        rcases ih (fun k o hk => h k o (List.mem_cons_of_mem _ hk)) with hno | ⟨key', d', hp, hm, ht⟩
        · exact Or.inl hno
        · exact Or.inr ⟨key', d', hp, List.mem_cons_of_mem _ hm, ht⟩
      | refuse => exact Or.inl rfl
      | take => exact Or.inr ⟨key, d, rfl, List.mem_cons_self, hchoice⟩

theorem Owned.not_null {m : PciMap} (h : m.Owned) : ∀ k o, (k, o) ∈ m → o ≠ none := by
  intro k o hk
  obtain ⟨d, rfl, -, -⟩ := h.entry k o hk
  exact Option.some_ne_none d

/-- What an assignment to the machine `vmid` does to the devices of the host. -/
structure Assigned (vmid : ℤ) (m m' : PciMap) (outcome : Outcome) : Prop where
  keeps : Keeps (fun v => v ≠ -1) m m'
  owned : (outcome = .noAddress → vmid = -1) → m'.Owned

theorem Assigned.trans {vmid : ℤ} {m m' m'' : PciMap} {o : Outcome}
    (h : Assigned vmid m m' .assigned) (h' : Assigned vmid m' m'' o) : Assigned vmid m m'' o :=
  ⟨h.keeps.trans h'.keeps, h'.owned⟩

/-- One device: only a free device is taken. -/
theorem addDevice_spec {choose : PCIDevice → Choice} (hfree : ∀ d, choose d = .take → d.vmid = -1)
    (device : PciAttribute) (sr : PciCapacity) {a : Assign} (h : a.map.Owned) :
    ∃ outcome device' a', addDevice choose device sr a = some (outcome, device', a') ∧
      Assigned sr.vmid a.map a'.map outcome := by
  rcases pick_cases choose a.map (Owned.not_null h) with hno | ⟨key, d, hpick, hmem, htake⟩
  · refine ⟨.noDevice, device, a, ?_, Keeps.refl _ _, fun _ => h⟩
    rw [addDevice, hno]
  · have hvmid := hfree d htake
    have hkeep : ∀ d' : PCIDevice, Keeps (fun v => v ≠ -1) a.map (a.map.set key d') :=
      fun d' => h.keeps_set hmem fun hne => absurd hvmid hne
    unfold addDevice
    rw [hpick]
    dsimp only
    split
    · exact ⟨.assigned, _, _, rfl, hkeep _, fun _ => h.set hmem rfl rfl⟩
    · exact ⟨.noAddress, _, _, rfl, hkeep _, fun hno => h.set hmem rfl (by rw [hno rfl]; rfl)⟩

theorem byAddr_free (shortAddr : Text) (d : PCIDevice) (h : byAddr shortAddr d = .take) :
    d.vmid = -1 := by
  unfold byAddr at h
  split_ifs at h with h1 h2
  exact not_not.mp h2

theorem byName_free (device : PciAttribute) (d : PCIDevice) (h : byName device d = .take) :
    d.vmid = -1 := by
  unfold byName at h
  dsimp only at h
  split_ifs at h with h1
  exact h1.2.2.2

/-- The first loop of `add`. -/
theorem addAddrs_spec (sr : PciCapacity) (devs : List PciAttribute) :
    ∀ a : Assign, a.map.Owned → ∃ outcome devs' a', addAddrs sr devs a = some (outcome, devs', a') ∧
      Assigned sr.vmid a.map a'.map outcome := by
  induction devs with
  | nil => exact fun a h => ⟨.assigned, [], a, rfl, Keeps.refl _ _, fun _ => h⟩
  | cons device devs ih =>
    intro a h
    rw [addAddrs]
    split
    · obtain ⟨outcome, device', a', hadd, hspec⟩ := addDevice_spec (byAddr_free _) device sr h
      rw [hadd]
      cases outcome with
      | assigned =>
        obtain ⟨outcome', devs', a'', htail, hspec'⟩ := ih a' (hspec.owned (fun h => absurd h (by decide)))
        exact ⟨outcome', (device', true) :: devs', a'', by simp [htail], hspec.trans hspec'⟩
      | noDevice => exact ⟨.noDevice, _, a', rfl, hspec⟩
      | noAddress => exact ⟨.noAddress, _, a', rfl, hspec⟩
    · obtain ⟨outcome, devs', a', htail, hspec⟩ := ih a h
      exact ⟨outcome, (device, false) :: devs', a', by simp [htail], hspec⟩

/-- The second loop of `add`. -/
theorem addNames_spec (sr : PciCapacity) (devs : List (PciAttribute × Bool)) :
    ∀ a : Assign, a.map.Owned → ∃ outcome devs' a', addNames sr devs a = some (outcome, devs', a') ∧
      Assigned sr.vmid a.map a'.map outcome := by
  induction devs with
  | nil => exact fun a h => ⟨.assigned, [], a, rfl, Keeps.refl _ _, fun _ => h⟩
  | cons e devs ih =>
    obtain ⟨device, done⟩ := e
    intro a h
    cases done with
    | true =>
      obtain ⟨outcome, devs', a', htail, hspec⟩ := ih a h
      exact ⟨outcome, device :: devs', a', by simp [addNames, htail], hspec⟩
    | false =>
      have hone : ∃ outcome device' a', addByName device sr a = some (outcome, device', a') ∧
          Assigned sr.vmid a.map a'.map outcome := by
        unfold addByName
        split
        · exact addDevice_spec (byName_free device) device sr h
        · exact ⟨.noDevice, device, a, rfl, Keeps.refl _ _, fun _ => h⟩
      obtain ⟨outcome, device', a', hadd, hspec⟩ := hone
      rw [addNames, hadd]
      cases outcome with
      | assigned =>
        obtain ⟨outcome', devs', a'', htail, hspec'⟩ := ih a' (hspec.owned (fun h => absurd h (by decide)))
        exact ⟨outcome', device' :: devs', a'', by simp [htail], hspec.trans hspec'⟩
      | noDevice => exact ⟨.noDevice, _, a', rfl, hspec⟩
      | noAddress => exact ⟨.noAddress, _, a', rfl, hspec⟩

/-- **`add` takes free devices only.** -/
theorem add_spec {m : PciMap} (h : m.Owned) (sr : PciCapacity) :
    ∃ outcome devs m', add m sr = some (outcome, devs, m') ∧
      Assigned sr.vmid m m' outcome := by
  obtain ⟨outcome, devs, a, haddr, hspec⟩ := addAddrs_spec sr sr.pci ⟨m, fun _ => ∅⟩ h
  unfold add
  rw [haddr]
  cases outcome with
  | assigned =>
    obtain ⟨outcome', devs', a', hname, hspec'⟩ :=
      addNames_spec sr devs a (hspec.owned (fun h => absurd h (by decide)))
    exact ⟨outcome', devs', a'.map, by simp [hname], hspec.trans hspec'⟩
  | noDevice => exact ⟨.noDevice, _, a.map, rfl, hspec⟩
  | noAddress => exact ⟨.noAddress, _, a.map, rfl, hspec⟩

/-! ## Release -/

theorem release_spec {m : PciMap} (h : m.Owned) {key : Text} {d : PCIDevice}
    (hmem : (key, some d) ∈ m) :
    (m.set key d.release).Owned ∧ Keeps (fun v => v ≠ d.vmid) m (m.set key d.release) :=
  ⟨h.set hmem rfl rfl, h.keeps_set hmem fun hne => absurd rfl hne⟩

theorem delByAddress_spec {m : PciMap} (h : m.Owned) (vmid : ℤ) (device : PciAttribute) :
    ∃ device' m', delByAddress vmid device m = some (device', m') ∧ m'.Owned ∧
      Keeps (fun v => v ≠ vmid) m m' := by
  unfold delByAddress
  rcases h.find_cases (device.value .address) with hno | ⟨d, hfind, hmem⟩
  · rw [hno]
    exact ⟨device, m, rfl, h, Keeps.refl _ _⟩
  · rw [hfind]
    dsimp only
    split
    · rename_i hv
      rw [← hv]
      exact ⟨_, _, rfl, release_spec h hmem⟩
    · exact ⟨device, m, rfl, h, Keeps.refl _ _⟩

theorem delDevice_spec {m : PciMap} (h : m.Owned) (vmid : ℤ) (device : PciAttribute) :
    ∃ device' m', delDevice vmid device m = some (device', m') ∧ m'.Owned ∧
      Keeps (fun v => v ≠ vmid) m m' := by
  unfold delDevice
  rcases h.find_cases (device.value .prevAddress) with hno | ⟨d, hfind, hmem⟩
  · rw [hno]
    exact delByAddress_spec h vmid device
  · rw [hfind]
    dsimp only
    split
    · rename_i hv
      rw [← hv]
      exact ⟨_, _, rfl, release_spec h hmem⟩
    · exact delByAddress_spec h vmid device

/-- **`del` takes back devices of its machine only.** -/
theorem delDevices_spec (vmid : ℤ) (devs : List PciAttribute) :
    ∀ m : PciMap, m.Owned → ∃ devs' m', delDevices vmid devs m = some (devs', m') ∧ m'.Owned ∧
      Keeps (fun v => v ≠ vmid) m m' := by
  induction devs with
  | nil => exact fun m h => ⟨[], m, rfl, h, Keeps.refl _ _⟩
  | cons device devs ih =>
    intro m h
    obtain ⟨device', m', hdel, howned, hkeeps⟩ := delDevice_spec h vmid device
    obtain ⟨devs', m'', htail, howned', hkeeps'⟩ := ih m' howned
    exact ⟨device' :: devs', m'', by simp [delDevices, hdel, htail], howned', hkeeps.trans hkeeps'⟩

/-! ## Failed migrations -/

/-- `revert` leaves the host as it is when the addresses are there. -/
theorem revertDevices_eq {m : PciMap} (devs : List PciAttribute) :
    ∀ address : Text, (address = [] ∨ address ∈ m.keys) →
      (∀ device ∈ devs, ∀ t, device .prevAddress = some t → t ≠ [] → t ∈ m.keys) →
      (revertDevices address devs m).2 = m := by
  induction devs with
  | nil => exact fun _ _ _ => rfl
  | cons device devs ih =>
    intro address haddr hdevs
    have haddr' : (device .prevAddress).getD address = [] ∨
        (device .prevAddress).getD address ∈ m.keys := by
      cases hprev : device .prevAddress with
      | none => exact haddr
      | some t =>
        by_cases ht : t = []
        · exact Or.inl ht
        · exact Or.inr (hdevs device List.mem_cons_self t hprev ht)
    have htail := ih _ haddr' fun d hd => hdevs d (List.mem_cons_of_mem _ hd)
    rw [revertDevices]
    dsimp only
    split
    · exact htail
    · rename_i hne
      have hmem := haddr'.resolve_left hne
      split
      · exact htail
      · exact htail
      · rename_i hfind
        exact absurd hmem (not_mem_keys_of_find hfind)

/-! ## Monitoring -/

/-- The attribute `VMID` of a report leaves its number in the field of the device. -/
def ReadableVmid (r : PciReport) : Prop :=
  (VmidAttr.text r.vmid).value ≠ none ∨ r.readVmid = -1

/-- The identifier is readable in every report that adds a device: its address is neither in the map
nor in an accepted report before. -/
def ReadableNew (conf : PciConf) (m : PciMap) (reports : List PciReport) : Prop :=
  ∀ front r rest, reports = front ++ r :: rest → isAccepted conf r = true →
    r.attrs.value .address ∉ m.keys →
    (∀ r' ∈ front, isAccepted conf r' = true → r'.attrs.value .address ≠ r.attrs.value .address) →
    ReadableVmid r

theorem ReadableNew.tail {conf : PciConf} {m m' : PciMap} {r : PciReport} {reports : List PciReport}
    (h : ReadableNew conf m (r :: reports)) (hsub : m.keys ⊆ m'.keys)
    (hr : isAccepted conf r = true → r.attrs.value .address ∈ m'.keys) :
    ReadableNew conf m' reports := by
  rintro front r₁ rest rfl hacc hnew hfront
  refine h (r :: front) r₁ rest rfl hacc (fun hm => hnew (hsub hm)) ?_
  intro r' hr' hacc'
  rcases List.mem_cons.mp hr' with rfl | hmem
  · intro heq
    exact hnew (heq ▸ hr hacc')
  · exact hfront r' hmem hacc'

theorem toDevice_vmid {r : PciReport} (h : ReadableVmid r) :
    r.toDevice.vmidAttr.value = some r.toDevice.vmid := by
  unfold PciReport.toDevice
  dsimp only
  split
  · rename_i hnone
    rw [VmidAttr.value, h.resolve_left (not_not.mpr hnone)]
  · rename_i hsome
    unfold PciReport.readVmid
    unfold VmidAttr.value at hsome ⊢
    dsimp only at hsome ⊢
    split_ifs at hsome ⊢ with h1 h2
    · exact absurd rfl hsome
    · rfl
    · exact absurd rfl hsome

/-- The loop over the reports. -/
theorem takeReports_spec (conf : PciConf) (reports : List PciReport) :
    ∀ (missing : List Text) (m : PciMap), m.Owned → ReadableNew conf m reports →
      ∃ missing' m', takeReports conf reports missing m = some (missing', m') ∧ m'.Owned ∧
        Keeps (fun _ => True) m m' := by
  induction reports with
  | nil => exact fun missing m h _ => ⟨missing, m, rfl, h, Keeps.refl _ _⟩
  | cons r reports ih =>
    intro missing m h hreports
    rw [takeReports]
    split
    · rename_i hacc
      dsimp only
      rcases h.find_cases (r.attrs.value .address) with hno | ⟨d, hfind, hmem⟩
      · rw [hno]
        have hkey := not_mem_keys_of_find hno
        have hread := hreports [] r reports rfl hacc hkey (by simp)
        have hmem : ∀ k, k = r.attrs.value .address ∨ k ∈ m.keys →
            k ∈ (m.insert (r.attrs.value .address) (some r.toDevice)).keys := by
          intro k hk
          rw [keys, (insert_perm.map Prod.fst).mem_iff, List.map_cons, List.mem_cons]
          exact hk
        obtain ⟨missing', m', heq, howned, hkeeps⟩ :=
          ih missing _ (h.insert hkey rfl (toDevice_vmid hread))
            (hreports.tail (fun k hk => hmem k (Or.inr hk)) fun _ => hmem _ (Or.inl rfl))
        exact ⟨missing', m', heq, howned, (keeps_insert _).trans hkeeps⟩
      · rw [hfind]
        obtain ⟨d₀, hd₀, -, hvmid⟩ := h.entry _ _ hmem
        rw [← Option.some.inj hd₀] at hvmid
        have hset : (m.set (r.attrs.value .address) (monitored d r)).Owned := h.set hmem rfl hvmid
        have hkeep : Keeps (fun _ => True) m (m.set (r.attrs.value .address) (monitored d r)) :=
          h.keeps_set hmem fun _ => rfl
        have hnew : ReadableNew conf (m.set (r.attrs.value .address) (monitored d r)) reports := by
          refine hreports.tail ?_ fun _ => ?_
          · rw [keys_set]
            exact List.Subset.refl _
          · rw [keys_set]
            exact mem_keys_of_mem hmem
        obtain ⟨missing', m', heq, howned, hkeeps⟩ :=
          ih (missing.filter fun k => k ≠ r.attrs.value .address) _ hset hnew
        exact ⟨missing', m', heq, howned, hkeep.trans hkeeps⟩
    · rename_i hacc
      exact ih missing m h (hreports.tail (List.Subset.refl _) fun h => absurd h hacc)

/-- The loop over the missing devices. -/
theorem dropMissing_spec (missing : List Text) :
    ∀ m : PciMap, m.Owned → ∃ m', dropMissing missing m = some m' ∧ m'.Owned ∧
      Keeps (fun v => v ≠ -1) m m' := by
  induction missing with
  | nil => exact fun m h => ⟨m, rfl, h, Keeps.refl _ _⟩
  | cons key missing ih =>
    intro m h
    rw [dropMissing]
    rcases h.find_cases key with hno | ⟨d, hfind, hmem⟩
    · rw [hno]
      exact ih m h
    · rw [hfind]
      dsimp only
      split
      · exact ih m h
      · rename_i hfree
        obtain ⟨m', heq, howned, hkeeps⟩ := ih _ (h.erase key)
        exact ⟨m', heq, howned, (h.keeps_erase hmem hfree).trans hkeeps⟩

/-- **`set_monitorization` keeps the devices that a machine uses.** -/
theorem setMonitorization_spec {m : PciMap} (h : m.Owned) (reports : List PciReport)
    (conf : PciConf) (hnew : ReadableNew conf m reports) :
    ∃ m', setMonitorization m reports conf = some m' ∧ m'.Owned ∧
      Keeps (fun v => v ≠ -1) m m' := by
  obtain ⟨missing, m₁, htake, howned, hkeeps⟩ :=
    takeReports_spec conf reports m.keys m h hnew
  obtain ⟨m₂, hdrop, howned', hkeeps'⟩ := dropMissing_spec missing m₁ howned
  refine ⟨m₂, ?_, howned', ?_⟩
  · rw [setMonitorization, htake]
    exact hdrop
  · exact Keeps.trans (fun k v _ hheld => hkeeps k v trivial hheld) hkeeps'

end HostSharePCI
