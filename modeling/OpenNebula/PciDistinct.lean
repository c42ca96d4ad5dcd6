/-
# When the addresses of PCI devices are distinct

The devices of a machine get distinct ports and distinct addresses when the intervals of ports and of
buses that its groups use do not meet, and no device of the flat bus is on one of these buses
(`Apart`).  A shared device on a node from the number of nodes of the topology on can get the port, or
from node 8 on the bus, of a dedicated one.
-/
import OpenNebula.PciPorts

open TextNumber

namespace HostSharePCI

/-! ## Texts -/

theorem valueOf_replicate_zero (n : ℕ) (ds : Text) :
    valueOf 16 (List.replicate n '0' ++ ds) = valueOf 16 ds := by
  induction n with
  | zero => rfl
  | succ n ih =>
    rw [List.replicate_succ, List.cons_append]
    exact ih

theorem valueOf_hexText (width n : ℕ) : valueOf 16 (hexText width n) = n := by
  rw [hexText, valueOf_replicate_zero]
  exact valueOf_toDigits (by norm_num) (by norm_num) n

theorem hexText_injective (width : ℕ) : Function.Injective (hexText width) := by
  intro n n' h
  rw [← valueOf_hexText width n, h, valueOf_hexText]

theorem toDigits_injective : Function.Injective (Nat.toDigits 10) := by
  intro n n' h
  rw [← valueOf_toDigits (by norm_num : 1 < 10) (by norm_num) n, h,
    valueOf_toDigits (by norm_num) (by norm_num)]

theorem hexText_ne_colon {width n : ℕ} : ∀ c ∈ hexText width n, c ≠ ':' := by
  rintro c hc rfl
  rcases List.mem_append.mp hc with hc | hc
  · exact absurd (List.eq_of_mem_replicate hc) (by decide)
  · exact absurd (isDigitOf_toDigits (by norm_num) (by norm_num) n _ hc) (by decide)

/-- **An address says its bus and its slot.** -/
theorem addressText_inj {bus slot bus' slot' : ℕ} (h : addressText bus slot = addressText bus' slot') :
    bus = bus' ∧ slot = slot' := by
  have hsplit : ∀ b s, addressText b s = hexText 2 b ++ ':' :: (hexText 2 s ++ ".0".toList) := by
    intro b s
    rw [addressText, List.append_assoc, List.append_assoc]
    rfl
  have htake : ∀ b s, (addressText b s).takeWhile (fun c => c != ':') = hexText 2 b := by
    intro b s
    rw [hsplit, List.takeWhile_append_of_pos (fun c hc => by simpa using hexText_ne_colon c hc),
      List.takeWhile_cons_of_neg (by simp), List.append_nil]
  have hbus : bus = bus' := by
    apply hexText_injective 2
    rw [← htake bus slot, h, htake]
  refine ⟨hbus, hexText_injective 2 ?_⟩
  rw [hsplit, hsplit, hbus] at h
  exact List.append_cancel_right (List.cons.inj (List.append_cancel_left h)).2

/-! ## The number of devices before a device -/

/-- Every number below the count is the number of devices before one of them. -/
theorem exists_rank {α : Type*} (p : α → Bool) (xs : List α) :
    ∀ k < xs.countP p, ∃ i, ∃ hi : i < xs.length, p xs[i] = true ∧ (xs.take i).countP p = k := by
  induction xs with
  | nil =>
    intro k hk
    exact absurd hk (by simp)
  | cons x xs ih =>
    intro k hk
    by_cases hx : p x = true
    · cases k with
      | zero => exact ⟨0, by simp, hx, by simp⟩
      | succ k =>
        rw [List.countP_cons_of_pos hx] at hk
        obtain ⟨i, hi, hp, hcount⟩ := ih k (by omega)
        refine ⟨i + 1, by simpa using hi, hp, ?_⟩
        rw [List.take_succ_cons, List.countP_cons_of_pos hx, hcount]
    · rw [List.countP_cons_of_neg hx] at hk
      obtain ⟨i, hi, hp, hcount⟩ := ih k hk
      refine ⟨i + 1, by simpa using hi, hp, ?_⟩
      rw [List.take_succ_cons, List.countP_cons_of_neg hx, hcount]

/-- A device counts for the ones after it. -/
theorem rank_lt {α : Type*} {p : α → Bool} {xs : List α} {i j : ℕ} (hij : i < j) (hi : i < xs.length)
    (hp : p xs[i] = true) : (xs.take i).countP p < (xs.take j).countP p := by
  have hnext : (xs.take (i + 1)).countP p = (xs.take i).countP p + 1 := by
    rw [List.take_succ_eq_append_getElem hi, List.countP_append, List.countP_singleton, if_pos hp]
  have hsub : (xs.take (i + 1)).Sublist (xs.take j) := List.take_sublist_take_left hij
  have hle := hsub.countP_le (p := p)
  omega

theorem rank_lt_count {α : Type*} {p : α → Bool} {xs : List α} {i : ℕ} (hi : i < xs.length)
    (hp : p xs[i] = true) : (xs.take i).countP p < xs.countP p := by
  have h := rank_lt hi hi hp
  rwa [List.take_length] at h

/-! ## The devices with their addresses -/

theorem getElem?_withAddresses (isQ35 : Bool) (nodes : List (ℤ × ℤ)) (devs : List PciAttribute) :
    ∀ (earlier : List PciAttribute) (i : ℕ), (withAddresses isQ35 nodes earlier devs)[i]? =
      devs[i]?.map fun d => withAddress isQ35 nodes (earlier ++ devs.take i) d := by
  induction devs with
  | nil => exact fun _ _ => rfl
  | cons device devs ih =>
    intro earlier i
    cases i with
    | zero =>
      rw [withAddresses, List.getElem?_cons_zero, List.getElem?_cons_zero, Option.map_some,
        List.take_zero, List.append_nil]
    | succ i =>
      rw [withAddresses, List.getElem?_cons_succ, List.getElem?_cons_succ, ih, List.take_succ_cons,
        List.append_assoc]
      rfl

/-- The devices, and how many of their groups came before them. -/
theorem pairwise_withAddresses_iff (isQ35 : Bool) (nodes : List (ℤ × ℤ)) (devs : List PciAttribute)
    (R : PciAttribute → PciAttribute → Prop) :
    (withAddresses isQ35 nodes [] devs).Pairwise R ↔
      ∀ i j, ∀ hj : j < devs.length, ∀ hij : i < j,
        R (withAddress isQ35 nodes (devs.take i) devs[i])
          (withAddress isQ35 nodes (devs.take j) devs[j]) := by
  have hget := getElem?_withAddresses isQ35 nodes devs []
  have hlength : (withAddresses isQ35 nodes [] devs).length = devs.length := by
    have hnone : ∀ i : ℕ, (withAddresses isQ35 nodes [] devs)[i]? = none ↔ devs[i]? = none := by
      intro i
      rw [hget i, Option.map_eq_none_iff]
    apply le_antisymm
    · exact List.getElem?_eq_none_iff.mp ((hnone _).mpr (List.getElem?_eq_none_iff.mpr le_rfl))
    · exact List.getElem?_eq_none_iff.mp ((hnone _).mp (List.getElem?_eq_none_iff.mpr le_rfl))
  have helem : ∀ i : ℕ, ∀ hi : i < (withAddresses isQ35 nodes [] devs).length, ∀ hi' : i < devs.length,
      (withAddresses isQ35 nodes [] devs)[i] = withAddress isQ35 nodes (devs.take i) devs[i] := by
    intro i hi hi'
    have h := hget i
    rw [List.getElem?_eq_getElem hi, List.getElem?_eq_getElem hi', Option.map_some,
      List.nil_append, Option.some.injEq] at h
    exact h
  rw [List.pairwise_iff_getElem]
  constructor
  · intro h i j hj hij
    rw [← helem i (by omega) (by omega), ← helem j (by omega) hj]
    exact h i j (by omega) (by omega) hij
  · intro h i j hi hj hij
    rw [helem i hi (by omega), helem j hj (by omega)]
    exact h i j (by omega) hij

theorem AllReady.get {nodes : List (ℤ × ℤ)} {devs : List PciAttribute} :
    ∀ {earlier : List PciAttribute}, AllReady nodes earlier devs → ∀ i, ∀ hi : i < devs.length,
      Ready nodes (earlier ++ devs.take i) devs[i] := by
  induction devs with
  | nil =>
    intro earlier _ i hi
    exact absurd hi (by simp)
  | cons device devs ih =>
    rintro earlier ⟨hfirst, hrest⟩ i hi
    cases i with
    | zero =>
      rw [List.take_zero, List.append_nil]
      exact hfirst
    | succ i =>
      have h := ih hrest i (by simpa using hi)
      rwa [List.append_assoc] at h

/-! ## Distinct addresses -/

/-- Two devices have different ports, if they have ports, and different addresses. -/
def Differ (a b : PciAttribute) : Prop :=
  (∀ t, a .vmBusIndex = some t → b .vmBusIndex ≠ some t) ∧ a .vmAddress ≠ b .vmAddress

theorem Differ.symm {a b : PciAttribute} (h : Differ a b) : Differ b a :=
  ⟨fun t hb ha => h.1 t ha hb, fun heq => h.2 heq.symm⟩

theorem onPort_values (device : PciAttribute) (port bus : ℕ) :
    onPort device port bus .vmBusIndex = some (Nat.toDigits 10 port) ∧
      onPort device port bus .vmAddress = some (addressText bus 0) := by
  constructor <;> simp [onPort, PciAttribute.replace]

theorem onFlatBus_values (device : PciAttribute) (bus slot : ℕ) :
    onFlatBus device bus slot .vmBusIndex = none ∧
      onFlatBus device bus slot .vmAddress = some (addressText bus slot) := by
  constructor <;> simp [onFlatBus, PciAttribute.replace, PciAttribute.remove]

theorem differ_onPort_iff (d d' : PciAttribute) (port bus port' bus' : ℕ) :
    Differ (onPort d port bus) (onPort d' port' bus') ↔ port ≠ port' ∧ bus ≠ bus' := by
  obtain ⟨hi, ha⟩ := onPort_values d port bus
  obtain ⟨hi', ha'⟩ := onPort_values d' port' bus'
  rw [Differ, hi, hi', ha, ha']
  constructor
  · rintro ⟨hport, hbus⟩
    refine ⟨?_, ?_⟩
    · rintro rfl
      exact hport _ rfl rfl
    · rintro rfl
      exact hbus rfl
  · rintro ⟨hport, hbus⟩
    refine ⟨?_, fun h => hbus (addressText_inj (Option.some.inj h)).1⟩
    intro t ht ht'
    exact hport (toDigits_injective (Option.some.inj (ht.trans ht'.symm)))

theorem differ_onFlatBus_iff (d d' : PciAttribute) (port bus bus' slot' : ℕ) :
    Differ (onPort d port bus) (onFlatBus d' bus' slot') ↔ (bus, 0) ≠ (bus', slot') := by
  obtain ⟨-, ha⟩ := onPort_values d port bus
  obtain ⟨hi', ha'⟩ := onFlatBus_values d' bus' slot'
  rw [Differ, hi', ha, ha', Ne, Ne, not_iff_not.mpr Prod.mk_inj]
  constructor
  · rintro ⟨-, haddr⟩ ⟨rfl, rfl⟩
    exact haddr rfl
  · intro hne
    exact ⟨fun t _ h => absurd h (by simp), fun h => hne (addressText_inj (Option.some.inj h))⟩

theorem differ_flat_iff (d d' : PciAttribute) (bus slot bus' slot' : ℕ) :
    Differ (onFlatBus d bus slot) (onFlatBus d' bus' slot') ↔ (bus, slot) ≠ (bus', slot') := by
  obtain ⟨hi, ha⟩ := onFlatBus_values d bus slot
  obtain ⟨-, ha'⟩ := onFlatBus_values d' bus' slot'
  rw [Differ, hi, ha, ha', Ne, Ne, not_iff_not.mpr Prod.mk_inj]
  constructor
  · rintro ⟨-, haddr⟩ ⟨rfl, rfl⟩
    exact haddr rfl
  · intro hne
    exact ⟨fun t h => absurd h (by simp), fun h => hne (addressText_inj (Option.some.inj h))⟩

/-- **The intervals of ports and buses do not meet**: those of two groups, and those of a group with
the places of the devices on the flat bus. -/
structure Apart (isQ35 : Bool) (nodes : List (ℤ × ℤ)) (devs : List PciAttribute) : Prop where
  groups : ∀ g h, g ≠ h → ∀ k < countOf nodes devs g, ∀ l < countOf nodes devs h,
    g.port (totalNodes nodes) k ≠ h.port (totalNodes nodes) l ∧ g.bus k ≠ h.bus l
  flat : ∀ d ∈ devs, groupOf nodes d = none → ∀ id, d.unsignedValue .pciId = some id →
    ∀ g, ∀ k < countOf nodes devs g, (g.bus k, 0) ≠ flatPlace isQ35 id d

section Distinct

variable {isQ35 : Bool} {nodes : List (ℤ × ℤ)} {devs : List PciAttribute}

theorem PortGroup.capacity_le (total : ℕ) (g : PortGroup) : g.capacity total ≤ g.slots := by
  rw [PortGroup.capacity]
  split_ifs
  · exact Nat.zero_le _
  · exact le_rfl

theorem withAddress_group {earlier : List PciAttribute} {d : PciAttribute} {g : PortGroup}
    (hg : groupOf nodes d = some g) :
    withAddress isQ35 nodes earlier d =
      onPort d (g.port (totalNodes nodes) (countOf nodes earlier g))
        (g.bus (countOf nodes earlier g)) := by
  have hid : d.unsignedValue .pciId ≠ none := by
    intro hnone
    unfold groupOf at hg
    rw [if_pos (Or.inl hnone)] at hg
    exact absurd hg (by simp)
  obtain ⟨id, hid⟩ := Option.ne_none_iff_exists'.mp hid
  rw [withAddress, hid, hg]

theorem withAddress_flat {earlier : List PciAttribute} {d : PciAttribute} {id : ℕ}
    (hg : groupOf nodes d = none) (hid : d.unsignedValue .pciId = some id) :
    withAddress isQ35 nodes earlier d =
      onFlatBus d (flatPlace isQ35 id d).1 (flatPlace isQ35 id d).2 := by
  rw [withAddress, hid, hg]

theorem unsignedValue_lt {d : PciAttribute} {name : PciName} {n : ℕ}
    (h : d.unsignedValue name = some n) : n < 2 ^ 32 := by
  unfold PciAttribute.unsignedValue at h
  dsimp only at h
  split_ifs at h with h1 h2 h3
  rw [← Option.some.inj h]
  exact getUnsigned_lt 10 32 _

/-- Devices with different numbers are in different places of the flat bus. -/
theorem flatPlace_ne {d d' : PciAttribute} {id id' : ℕ} (hid : d.unsignedValue .pciId = some id)
    (hid' : d'.unsignedValue .pciId = some id') (hne : id ≠ id') :
    flatPlace isQ35 id d ≠ flatPlace isQ35 id' d' := by
  have hlt := unsignedValue_lt hid
  have hlt' := unsignedValue_lt hid'
  intro heq
  cases isQ35 with
  | true =>
    have h : (id + 1) % 2 ^ 32 = (id' + 1) % 2 ^ 32 := congrArg Prod.fst heq
    omega
  | false =>
    have h : (id + 1) % 2 ^ 32 = (id' + 1) % 2 ^ 32 := congrArg Prod.snd heq
    omega

theorem exists_countOf {g : PortGroup} {k : ℕ} (h : k < countOf nodes devs g) :
    ∃ i, ∃ hi : i < devs.length, groupOf nodes devs[i] = some g ∧
      countOf nodes (devs.take i) g = k := by
  obtain ⟨i, hi, hp, hcount⟩ := exists_rank (fun d => decide (groupOf nodes d = some g)) devs k h
  exact ⟨i, hi, of_decide_eq_true hp, hcount⟩

/-- **When the addresses are distinct.** -/
theorem pairwise_differ_iff (hready : AllReady nodes [] devs)
    (hids : ∀ d ∈ devs, d.unsignedValue .pciId ≠ none)
    (hnodup : (devs.map fun d => d.unsignedValue .pciId).Nodup) :
    (withAddresses isQ35 nodes [] devs).Pairwise Differ ↔ Apart isQ35 nodes devs := by
  rw [pairwise_withAddresses_iff]
  have hcount : ∀ {i g}, ∀ hi : i < devs.length, groupOf nodes devs[i] = some g →
      countOf nodes (devs.take i) g < countOf nodes devs g := by
    intro i g hi hg
    exact rank_lt_count hi (decide_eq_true hg)
  have hid : ∀ i, ∀ hi : i < devs.length, ∃ id, devs[i].unsignedValue .pciId = some id :=
    fun i hi => Option.ne_none_iff_exists'.mp (hids _ (List.getElem_mem hi))
  constructor
  · intro h
    -- the relation does not depend on the order of the two devices
    have hboth : ∀ i j, ∀ hi : i < devs.length, ∀ hj : j < devs.length, i ≠ j →
        Differ (withAddress isQ35 nodes (devs.take i) devs[i])
          (withAddress isQ35 nodes (devs.take j) devs[j]) := by
      intro i j hi hj hne
      rcases Nat.lt_or_gt_of_ne hne with hlt | hgt
      · exact h i j hj hlt
      · exact (h j i hi hgt).symm
    constructor
    · intro g g' hne k hk l hl
      obtain ⟨i, hi, hg, rfl⟩ := exists_countOf hk
      obtain ⟨j, hj, hg', rfl⟩ := exists_countOf hl
      have hij : i ≠ j := by
        rintro rfl
        exact hne (Option.some.inj (hg.symm.trans hg'))
      have hdiffer := hboth i j hi hj hij
      rw [withAddress_group hg, withAddress_group hg', differ_onPort_iff] at hdiffer
      exact hdiffer
    · intro d hd hg id hid g k hk
      obtain ⟨j, hj, rfl⟩ := List.getElem_of_mem hd
      obtain ⟨i, hi, hg', rfl⟩ := exists_countOf hk
      have hij : i ≠ j := by
        rintro rfl
        rw [hg] at hg'
        exact absurd hg' (by simp)
      have hdiffer := hboth i j hi hj hij
      rw [withAddress_group hg', withAddress_flat hg hid, differ_onFlatBus_iff] at hdiffer
      exact hdiffer
  · intro h i j hj hij
    have hi : i < devs.length := by omega
    cases hg : groupOf nodes devs[i] with
    | some g =>
      rw [withAddress_group hg]
      cases hg' : groupOf nodes devs[j] with
      | some g' =>
        rw [withAddress_group hg', differ_onPort_iff]
        by_cases heq : g = g'
        · subst heq
          have hlt : countOf nodes (devs.take i) g < countOf nodes (devs.take j) g :=
            rank_lt hij hi (decide_eq_true hg)
          have hcap := (hready.get j hj).1 g hg'
          have hslots := g.capacity_le (totalNodes nodes)
          rw [List.nil_append] at hcap
          refine ⟨fun hport => ?_, fun hbus => ?_⟩
          · exact absurd (PortGroup.port_injective _ g hport) (by omega)
          · exact absurd (PortGroup.bus_injective (by omega) (by omega) hbus) (by omega)
        · exact h.groups g g' heq _ (hcount hi hg) _ (hcount hj hg')
      | none =>
        obtain ⟨id, hid'⟩ := hid j hj
        rw [withAddress_flat hg' hid', differ_onFlatBus_iff]
        exact h.flat _ (List.getElem_mem hj) hg' id hid' g _ (hcount hi hg)
    | none =>
      obtain ⟨id, hidi⟩ := hid i hi
      rw [withAddress_flat hg hidi]
      cases hg' : groupOf nodes devs[j] with
      | some g' =>
        rw [withAddress_group hg']
        apply Differ.symm
        rw [differ_onFlatBus_iff]
        exact h.flat _ (List.getElem_mem hi) hg id hidi g' _ (hcount hj hg')
      | none =>
        obtain ⟨id', hidj⟩ := hid j hj
        rw [withAddress_flat hg' hidj, differ_flat_iff]
        apply flatPlace_ne hidi hidj
        intro heq
        apply List.nodup_iff_getElem?_ne_getElem?.mp hnodup i j hij (by simpa using hj)
        rw [List.getElem?_map, List.getElem?_map, List.getElem?_eq_getElem hi,
          List.getElem?_eq_getElem hj, Option.map_some, Option.map_some, hidi, hidj, heq]

end Distinct

/-! ## The devices of a machine -/

theorem FirstFit.length_eq {free : PciAttribute → List Entry → Entry → Prop} {m : PciMap}
    {devs : List PciAttribute} :
    ∀ {earlier picks : List Entry}, FirstFit free m devs earlier picks →
      picks.length = devs.length := by
  induction devs with
  | nil =>
    rintro earlier picks rfl
    rfl
  | cons device devs ih =>
    intro earlier picks h
    cases picks with
    | nil => exact absurd h id
    | cons e picks => rw [List.length_cons, List.length_cons, ih h.2]

theorem order_perm (devs : List PciAttribute) : (order devs).Perm devs :=
  List.filter_append_perm isByAddr devs

/-- The numbers of the devices are those of their requests. -/
theorem pciIds_handed (sr : PciCapacity) (devs : List PciAttribute) :
    ∀ ds : List PCIDevice, ds.length = devs.length →
      (handed sr (devs.zip ds)).map (fun d => d.unsignedValue .pciId) =
        devs.map fun d => d.unsignedValue .pciId := by
  induction devs with
  | nil => exact fun _ _ => rfl
  | cons device devs ih =>
    intro ds hlength
    cases ds with
    | nil => exact absurd hlength (by simp)
    | cons d ds =>
      have hname : (pciAttribute device d true sr.vgpuProfile).unsignedValue .pciId =
          device.unsignedValue .pciId := by
        unfold PciAttribute.unsignedValue PciAttribute.value
        rw [pciAttribute_eq device d sr.vgpuProfile (by decide)]
        rfl
      have htail := ih ds (by simpa using hlength)
      rw [List.zip_cons_cons, handed, List.map_cons, List.map_cons, List.map_cons, hname]
      rw [handed] at htail
      rw [htail]

/-- **When the devices of a machine get distinct ports and addresses.** -/
theorem distinct_iff {m m' : PciMap} {sr : PciCapacity} {devs' : List PciAttribute}
    (hvmid : sr.vmid ≠ -1) (hkeys : m.keys.Nodup)
    (hids : ∀ d ∈ sr.pci, d.unsignedValue .pciId ≠ none)
    (hdistinct : (sr.pci.map fun d => d.unsignedValue .pciId).Nodup)
    (hadd : add m sr = some (.assigned, devs', m')) :
    ∃ picks, FirstFit addFree m (order sr.pci) [] picks ∧
      (devs'.Pairwise Differ ↔
        Apart sr.isQ35 sr.nodes (handed sr ((order sr.pci).zip (picks.map Prod.snd)))) := by
  obtain ⟨picks, ds, palloc', hfit, haddress, hperm, -⟩ := add_assigned hvmid hkeys hadd
  refine ⟨picks, hfit, ?_⟩
  obtain ⟨hready, hvalue⟩ := addressAll_eq sr ((order sr.pci).zip (picks.map Prod.snd)) [] _
    (portsAre_nil sr.nodes)
  have hnumbers := pciIds_handed sr (order sr.pci) (picks.map Prod.snd)
    (by rw [List.length_map, hfit.length_eq])
  have hsame : (order sr.pci).map (fun d => d.unsignedValue .pciId) |>.Perm
      (sr.pci.map fun d => d.unsignedValue .pciId) := (order_perm sr.pci).map _
  have hperm' : devs'.Pairwise Differ ↔ ds.Pairwise Differ := hperm.pairwise_iff Differ.symm
  have hds : ds = withAddresses sr.isQ35 sr.nodes []
      (handed sr ((order sr.pci).zip (picks.map Prod.snd))) := hvalue _ haddress
  rw [hperm', hds]
  apply pairwise_differ_iff (hready.mp ⟨_, haddress⟩)
  · intro d hd
    have hmem : d.unsignedValue .pciId ∈ sr.pci.map fun d => d.unsignedValue .pciId := by
      rw [← hsame.mem_iff, ← hnumbers]
      exact List.mem_map_of_mem hd
    obtain ⟨d', hd', heq⟩ := List.mem_map.mp hmem
    rw [← heq]
    exact hids d' hd'
  · rw [hnumbers]
    exact hsame.nodup_iff.mpr hdistinct

/-! ## A dedicated and a shared device of one node -/

/-- A device of a node of the host. -/
def nodeDevice (node shortAddress : Text) : PCIDevice where
  vendorId := 0x10de
  deviceId := 0x1db6
  classId := 0x0302
  vmid := -1
  address := "0000:".toList ++ shortAddress
  attrs := fun
    | .address => some ("0000:".toList ++ shortAddress)
    | .shortAddress => some shortAddress
    | .numaNode => some node
    | _ => none
  vmidAttr := .number (-1)

/-- A host with two devices of a node. -/
def nodeHost (node : Text) : PciMap :=
  [("0000:01:00.0".toList, some (nodeDevice node "01:00.0".toList)),
    ("0000:02:00.0".toList, some (nodeDevice node "02:00.0".toList))]

/-- A request by short address. -/
def portRequest (shortAddress id root : Text) : PciAttribute
  | .shortAddress => some shortAddress
  | .pciId => some id
  | .root => some root
  | .vmBus => some "0x01".toList
  | _ => none

/-- A machine with one node that asks for both devices, the second one dedicated. -/
def portMachine : PciCapacity where
  vmid := 7
  isQ35 := true
  vgpuProfile := []
  pci := [portRequest "01:00.0".toList "0".toList "".toList,
    portRequest "02:00.0".toList "1".toList "dedicated".toList]
  nodes := [(1, 1024)]

/-- The devices are of the node 0. -/
theorem distinct_portMachine :
    ∃ devs' m', add (nodeHost "0".toList) portMachine = some (.assigned, devs', m') ∧
      ∃ picks, FirstFit addFree (nodeHost "0".toList) (order portMachine.pci) [] picks ∧
        (devs'.Pairwise Differ ↔ Apart portMachine.isQ35 portMachine.nodes
          (handed portMachine ((order portMachine.pci).zip (picks.map Prod.snd)))) := by
  have hstart : (add (nodeHost "0".toList) portMachine).map (fun r => r.1) = some .assigned := by
    decide
  obtain ⟨⟨outcome, devs', m'⟩, hadd, heq⟩ := Option.map_eq_some_iff.mp hstart
  have hassigned : outcome = .assigned := heq
  subst hassigned
  exact ⟨devs', m', hadd, distinct_iff (by decide) (by decide) (by decide)
    (by decide) hadd⟩

/-- When the devices are of the node 1, both get the port 13: the first one of this node, and the first
one after the only node of the machine. -/
theorem not_distinct :
    ¬ ∀ (m m' : PciMap) (sr : PciCapacity) (devs' : List PciAttribute), sr.vmid ≠ -1 →
      m.keys.Nodup → sr.nodes ≠ [] → (∀ d ∈ sr.pci, d.unsignedValue .pciId ≠ none) →
        (sr.pci.map fun d => d.unsignedValue .pciId).Nodup →
          add m sr = some (.assigned, devs', m') → devs'.Pairwise Differ := by
  intro h
  have hstart : (add (nodeHost "1".toList) portMachine).map
      (fun r => (r.1, r.2.1.map fun d => d .vmBusIndex)) =
        some (.assigned, [some "13".toList, some "13".toList]) := by
    decide
  obtain ⟨⟨outcome, devs', m'⟩, hadd, heq⟩ := Option.map_eq_some_iff.mp hstart
  obtain ⟨rfl, hports⟩ := Prod.mk.inj heq
  have hdiffer := h _ m' _ devs' (by decide) (by decide) (by decide) (by decide)
    (by decide) hadd
  match devs', hports with
  | [a, b], hports =>
    obtain ⟨ha, hb⟩ : a .vmBusIndex = some "13".toList ∧ b .vmBusIndex = some "13".toList := by
      simpa using hports
    exact (List.pairwise_pair.mp hdiffer).1 _ ha hb

end HostSharePCI
