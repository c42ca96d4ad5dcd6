/-
# Which PCI devices a release frees

`del` goes once over the devices of a machine and frees at most one device of the host for each: the
one with its previous address if the machine holds it, and otherwise the one with its address.  After
a migration both kinds of addresses come from one name space.  A previous address that the machine
holds uses up the turn of its device, whose own address is then left to another turn.

Without the host this is a process on sets of addresses (`turn`), and what is left of the set is said
by `mem_turns`: an address goes if it is the previous address of some device, or if the previous
address of its own device is `Spent` when its turn comes.
-/
import OpenNebula.PciRuns

/-! ## Turns with two candidates -/

namespace TwoTries

variable {α : Type*}

/-- The first candidate is taken out if it is there, and otherwise the second. -/
def turn (held : Set α) (p : α × α) : Set α :=
  {x | x ∈ held ∧ (p.1 ∈ held → x ≠ p.1) ∧ (p.1 ∉ held → x ≠ p.2)}

/-- The first candidate of a turn is not there when the turn comes: it never was, an earlier turn has
the same one, or it is the second candidate of an earlier turn whose first one was not there. -/
inductive Spent (held : Set α) (ps : List (α × α)) : ℕ → Prop where
  | foreign {j : ℕ} {a b : α} (hj : ps[j]? = some (a, b)) (hout : a ∉ held) : Spent held ps j
  | repeated {i j : ℕ} {a b c : α} (hj : ps[j]? = some (a, b)) (hij : i < j)
      (hi : ps[i]? = some (a, c)) : Spent held ps j
  | chain {i j : ℕ} {a b c : α} (hj : ps[j]? = some (a, b)) (hij : i < j)
      (hi : ps[i]? = some (c, a)) (hspent : Spent held ps i) : Spent held ps j

/-- What is left before a turn decides whether its first candidate is there. -/
theorem spent_iff_of_left {held left : Set α} {ps : List (α × α)} {j : ℕ} {a b : α}
    (hj : ps[j]? = some (a, b))
    (hleft : ∀ x, x ∈ left ↔ x ∈ held ∧ (∀ i < j, ∀ c, ps[i]? ≠ some (x, c)) ∧
      ∀ i < j, ∀ c, ps[i]? = some (c, x) → ¬Spent held ps i) :
    Spent held ps j ↔ a ∉ left := by
  rw [hleft]
  constructor
  · intro h hin
    obtain ⟨hheld, hfirst, hsecond⟩ := hin
    cases h with
    | foreign hj' hout =>
      rw [hj, Option.some.injEq, Prod.mk.injEq] at hj'
      rw [← hj'.1] at hout
      exact hout hheld
    | repeated hj' hij hi =>
      rw [hj, Option.some.injEq, Prod.mk.injEq] at hj'
      rw [← hj'.1] at hi
      exact hfirst _ hij _ hi
    | chain hj' hij hi hspent =>
      rw [hj, Option.some.injEq, Prod.mk.injEq] at hj'
      rw [← hj'.1] at hi
      exact hsecond _ hij _ hi hspent
  · intro hout
    by_contra hnot
    refine hout ⟨?_, ?_, ?_⟩
    · by_contra hheld
      exact hnot (.foreign hj hheld)
    · intro i hij c hi
      exact hnot (.repeated hj hij hi)
    · intro i hij c hi hspent
      exact hnot (.chain hj hij hi hspent)

/-- **What is left after some turns.** -/
theorem mem_turns (held : Set α) (ps : List (α × α)) :
    ∀ j ≤ ps.length, ∀ x, x ∈ (ps.take j).foldl turn held ↔
      x ∈ held ∧ (∀ i < j, ∀ c, ps[i]? ≠ some (x, c)) ∧
        ∀ i < j, ∀ c, ps[i]? = some (c, x) → ¬Spent held ps i := by
  intro j
  induction j with
  | zero =>
    intro _ x
    simp
  | succ j ih =>
    intro hlength x
    have ih := ih (by omega)
    obtain ⟨⟨a, b⟩, hj⟩ : ∃ p, ps[j]? = some p := ⟨ps[j], List.getElem?_eq_getElem (by omega)⟩
    have hspent := spent_iff_of_left hj ih
    rw [List.take_add_one, hj, Option.toList_some, List.foldl_concat]
    constructor
    · rintro ⟨hx, hin, hout⟩
      obtain ⟨hheld, hfirst, hsecond⟩ := (ih x).mp hx
      refine ⟨hheld, ?_, ?_⟩
      · intro i hi c hc
        rcases Nat.lt_succ_iff_lt_or_eq.mp hi with hlt | rfl
        · exact hfirst i hlt c hc
        · -- the first candidate of the turn itself is not left
          obtain ⟨rfl, rfl⟩ := Prod.mk.inj (Option.some.inj (hj.symm.trans hc))
          exact hin hx rfl
      · intro i hi c hc hsp
        rcases Nat.lt_succ_iff_lt_or_eq.mp hi with hlt | rfl
        · exact hsecond i hlt c hc hsp
        · obtain ⟨rfl, rfl⟩ := Prod.mk.inj (Option.some.inj (hj.symm.trans hc))
          exact hout (hspent.mp hsp) rfl
    · rintro ⟨hheld, hfirst, hsecond⟩
      refine ⟨(ih x).mpr ⟨hheld, fun i hi => hfirst i (by omega), fun i hi => hsecond i (by omega)⟩,
        ?_, ?_⟩
      · rintro - rfl
        exact hfirst j (by omega) b hj
      · rintro hout rfl
        exact hsecond j (by omega) a hj (hspent.mpr hout)

/-- What is left in the end. -/
theorem mem_foldl_turn (held : Set α) (ps : List (α × α)) (x : α) :
    x ∈ ps.foldl turn held ↔ x ∈ held ∧ (∀ p ∈ ps, p.1 ≠ x) ∧
      ∀ j c, ps[j]? = some (c, x) → ¬Spent held ps j := by
  have h := mem_turns held ps ps.length le_rfl x
  have hlt : ∀ {i : ℕ} {p : α × α}, ps[i]? = some p → i < ps.length := by
    intro i p hp
    exact (List.getElem?_eq_some_iff.mp hp).1
  rw [List.take_length] at h
  rw [h]
  refine and_congr_right fun _ => and_congr ?_ ?_
  · constructor
    · rintro hfirst ⟨a, b⟩ hp rfl
      obtain ⟨i, hi, heq⟩ := List.getElem_of_mem hp
      exact hfirst i hi b (by rw [List.getElem?_eq_getElem hi, heq])
    · intro hfirst i hi c hc
      exact hfirst _ (List.mem_of_getElem? hc) rfl
  · constructor
    · intro hsecond j c hc
      exact hsecond j (hlt hc) c hc
    · intro hsecond i _ c hc
      exact hsecond i c hc

end TwoTries

/-! ## One device -/

namespace HostSharePCI

open PciMap TwoTries

/-- The previous address and the address of a device. -/
def addressPair (device : PciAttribute) : Text × Text :=
  (device.value .prevAddress, device.value .address)

/-- The addresses of the devices that a machine holds. -/
def heldBy (vmid : ℤ) (m : PciMap) : Set Text := {k | m.Held k vmid}

/-- What a release does to the host: the addresses that the machine still holds, and the entries of
the others. -/
structure Freed (vmid : ℤ) (left : Set Text) (m m' : PciMap) : Prop where
  keys : m'.keys = m.keys
  null : ∀ k, (k, none) ∈ m' ↔ (k, none) ∈ m
  held : heldBy vmid m' = left
  other : ∀ k d, (k, some d) ∈ m → d.vmid ≠ vmid → (k, some d) ∈ m'

section Release

variable {m : PciMap} {vmid : ℤ} {key : Text} {d : PCIDevice}

theorem held_iff_of_find (hnodup : m.keys.Nodup) (h : m.find key = some (some d)) :
    key ∈ heldBy vmid m ↔ d.vmid = vmid := by
  constructor
  · rintro ⟨d', hd', hvmid⟩
    rw [← Option.some.inj (eq_of_mem hnodup hd' (mem_of_find h))]
    exact hvmid
  · intro hvmid
    exact ⟨d, mem_of_find h, hvmid⟩

theorem not_held_of_find (hnodup : m.keys.Nodup) (h : ∀ d, m.find key ≠ some (some d)) :
    key ∉ heldBy vmid m := by
  rintro ⟨d, hd, -⟩
  cases hfind : m.find key with
  | none => exact not_mem_keys_of_find hfind (mem_keys_of_mem hd)
  | some o =>
    rw [eq_of_mem hnodup (mem_of_find hfind) hd] at hfind
    exact h d hfind

theorem freed_refl (vmid : ℤ) (m : PciMap) : Freed vmid (heldBy vmid m) m m :=
  ⟨rfl, fun _ => Iff.rfl, rfl, fun _ _ h _ => h⟩

/-- A device of the machine is given back. -/
theorem freed_set (hnodup : m.keys.Nodup) (hvmid : vmid ≠ -1) (hmem : (key, some d) ∈ m)
    (hheld : d.vmid = vmid) :
    Freed vmid {k | k ∈ heldBy vmid m ∧ k ≠ key} m (m.set key d.release) := by
  have hkey : key ∈ m.keys := mem_keys_of_mem hmem
  constructor
  · exact keys_set
  · intro k
    rw [mem_set]
    constructor
    · rintro (⟨-, -, h⟩ | ⟨-, h⟩)
      · exact absurd h (by simp)
      · exact h
    · intro h
      refine Or.inr ⟨?_, h⟩
      rintro rfl
      exact absurd (eq_of_mem hnodup h hmem) (by simp)
  · ext k
    constructor
    · rintro ⟨e, he, hown⟩
      rcases mem_set.mp he with ⟨rfl, -, hrelease⟩ | ⟨hne, he'⟩
      · rw [Option.some.inj hrelease] at hown
        exact absurd hown.symm hvmid
      · exact ⟨⟨e, he', hown⟩, hne⟩
    · rintro ⟨⟨e, he, hown⟩, hne⟩
      exact ⟨e, mem_set.mpr (Or.inr ⟨hne, he⟩), hown⟩
  · intro k e he hother
    refine mem_set.mpr (Or.inr ⟨?_, he⟩)
    rintro rfl
    rw [Option.some.inj (eq_of_mem hnodup he hmem)] at hother
    exact hother hheld

theorem delByAddress_spec' (hnodup : m.keys.Nodup) (hvmid : vmid ≠ -1) (device : PciAttribute) :
    (delByAddress vmid device m = none ↔ (device.value .address, none) ∈ m) ∧
      ∀ device' m', delByAddress vmid device m = some (device', m') →
        Freed vmid {k | k ∈ heldBy vmid m ∧ k ≠ device.value .address} m m' := by
  have hout : device.value .address ∉ heldBy vmid m →
      Freed vmid {k | k ∈ heldBy vmid m ∧ k ≠ device.value .address} m m := by
    intro hnot
    have hset : {k | k ∈ heldBy vmid m ∧ k ≠ device.value .address} = heldBy vmid m := by
      ext k
      constructor
      · exact fun h => h.1
      · intro h
        refine ⟨h, ?_⟩
        rintro rfl
        exact hnot h
    rw [hset]
    exact freed_refl vmid m
  unfold delByAddress
  cases hfind : m.find (device.value .address) with
  | none =>
    refine ⟨iff_of_false (by simp) fun h => not_mem_keys_of_find hfind (mem_keys_of_mem h), ?_⟩
    intro device' m' h
    obtain ⟨-, rfl⟩ := Prod.mk.inj (Option.some.inj h)
    exact hout (not_held_of_find hnodup (by simp [hfind]))
  | some o =>
    cases o with
    | none => exact ⟨iff_of_true rfl (mem_of_find hfind), fun _ _ h => absurd h (by simp)⟩
    | some d =>
      have hmem := mem_of_find hfind
      have hheld : device.value .address ∈ heldBy vmid m ↔ d.vmid = vmid :=
        held_iff_of_find hnodup hfind
      dsimp only
      split_ifs with hown
      · refine ⟨iff_of_false (by simp) fun h => absurd (eq_of_mem hnodup h hmem) (by simp), ?_⟩
        intro device' m' h
        obtain ⟨-, rfl⟩ := Prod.mk.inj (Option.some.inj h)
        exact freed_set hnodup hvmid hmem hown
      · refine ⟨iff_of_false (by simp) fun h => absurd (eq_of_mem hnodup h hmem) (by simp), ?_⟩
        intro device' m' h
        obtain ⟨-, rfl⟩ := Prod.mk.inj (Option.some.inj h)
        exact hout (fun h => hown (hheld.mp h))

/-- **The turn of one device.** -/
theorem delDevice_turn (hnodup : m.keys.Nodup) (hvmid : vmid ≠ -1) (device : PciAttribute)
    (haddress : (device.value .address, none) ∉ m) :
    (delDevice vmid device m = none ↔ (device.value .prevAddress, none) ∈ m) ∧
      ∀ device' m', delDevice vmid device m = some (device', m') →
        Freed vmid (turn (heldBy vmid m) (addressPair device)) m m' := by
  have hsecond : device.value .prevAddress ∉ heldBy vmid m →
      turn (heldBy vmid m) (addressPair device) =
        {k | k ∈ heldBy vmid m ∧ k ≠ device.value .address} := by
    intro hnot
    ext k
    exact ⟨fun h => ⟨h.1, h.2.2 hnot⟩, fun h => ⟨h.1, fun hin => absurd hin hnot, fun _ => h.2⟩⟩
  have hbyAddress := delByAddress_spec' hnodup hvmid device
  unfold delDevice
  cases hfind : m.find (device.value .prevAddress) with
  | none =>
    have hnull : (device.value .prevAddress, none) ∉ m :=
      fun h => not_mem_keys_of_find hfind (mem_keys_of_mem h)
    rw [hsecond (not_held_of_find hnodup (by simp [hfind]))]
    exact ⟨iff_of_false (fun h => haddress (hbyAddress.1.mp h)) hnull, hbyAddress.2⟩
  | some o =>
    cases o with
    | none => exact ⟨iff_of_true rfl (mem_of_find hfind), fun _ _ h => absurd h (by simp)⟩
    | some d =>
      have hmem := mem_of_find hfind
      have hnull : (device.value .prevAddress, none) ∉ m :=
        fun h => absurd (eq_of_mem hnodup h hmem) (by simp)
      have hheld : device.value .prevAddress ∈ heldBy vmid m ↔ d.vmid = vmid :=
        held_iff_of_find hnodup hfind
      dsimp only
      split_ifs with hown
      · refine ⟨iff_of_false (by simp) hnull, ?_⟩
        intro device' m' h
        obtain ⟨-, rfl⟩ := Prod.mk.inj (Option.some.inj h)
        have hin := hheld.mpr hown
        have hset : turn (heldBy vmid m) (addressPair device) =
            {k | k ∈ heldBy vmid m ∧ k ≠ device.value .prevAddress} := by
          ext k
          exact ⟨fun h => ⟨h.1, h.2.1 hin⟩,
            fun h => ⟨h.1, fun _ => h.2, fun hout => absurd hin hout⟩⟩
        rw [hset]
        exact freed_set hnodup hvmid hmem hown
      · rw [hsecond (fun h => hown (hheld.mp h))]
        exact ⟨iff_of_false (fun h => haddress (hbyAddress.1.mp h)) hnull, hbyAddress.2⟩

end Release

/-! ## All the devices -/

/-- **The turns of all the devices.** -/
theorem delDevices_turns {vmid : ℤ} (hvmid : vmid ≠ -1) (devs : List PciAttribute) :
    ∀ {m : PciMap}, m.keys.Nodup → (∀ device ∈ devs, (device.value .address, none) ∉ m) →
      (delDevices vmid devs m = none ↔ ∃ device ∈ devs, (device.value .prevAddress, none) ∈ m) ∧
        ∀ devs' m', delDevices vmid devs m = some (devs', m') →
          Freed vmid ((devs.map addressPair).foldl turn (heldBy vmid m)) m m' := by
  induction devs with
  | nil =>
    intro m _ _
    refine ⟨iff_of_false (by simp [delDevices]) (by simp), ?_⟩
    intro devs' m' h
    obtain ⟨-, rfl⟩ := Prod.mk.inj (Option.some.inj h)
    exact freed_refl vmid m
  | cons device devs ih =>
    intro m hnodup haddress
    obtain ⟨hnone, hsome⟩ := delDevice_turn hnodup hvmid device
      (haddress device List.mem_cons_self)
    rw [delDevices]
    rcases hone : delDevice vmid device m with _ | ⟨device', m₁⟩
    · refine ⟨iff_of_true rfl ⟨device, List.mem_cons_self, hnone.mp hone⟩, ?_⟩
      exact fun _ _ h => absurd h (by simp)
    have hturn := hsome _ _ hone
    obtain ⟨hnone', hsome'⟩ := ih (by rw [hturn.keys]; exact hnodup)
      (fun d hd h => haddress d (List.mem_cons_of_mem _ hd) ((hturn.null _).mp h))
    dsimp only
    constructor
    · rw [Option.map_eq_none_iff, hnone']
      constructor
      · rintro ⟨d, hd, h⟩
        exact ⟨d, List.mem_cons_of_mem _ hd, (hturn.null _).mp h⟩
      · rintro ⟨d, hd, h⟩
        rcases List.mem_cons.mp hd with rfl | hd
        · rw [hnone.mpr h] at hone
          exact absurd hone (by simp)
        · exact ⟨d, hd, (hturn.null _).mpr h⟩
    · intro devs' m' h
      obtain ⟨⟨ds, m₂⟩, htail, heq⟩ := Option.map_eq_some_iff.mp h
      obtain ⟨-, rfl⟩ := Prod.mk.inj heq
      have hrest := hsome' _ _ htail
      rw [hturn.held] at hrest
      exact ⟨hrest.keys.trans hturn.keys, fun k => (hrest.null k).trans (hturn.null k), hrest.held,
        fun k d hd hother => hrest.other k d (hturn.other k d hd hother) hother⟩

end HostSharePCI

/-! ## The addresses of the devices -/

namespace PciMap

/-- The keys are different, and a device has its key in the attribute `ADDRESS`. -/
structure Keyed (m : PciMap) : Prop where
  nodup : m.keys.Nodup
  address : ∀ k d, (k, some d) ∈ m → d.attrs.value .address = k

variable {m : PciMap} {key : Text} {d : PCIDevice}

theorem Keyed.set (h : m.Keyed) (haddress : d.attrs.value .address = key) : (m.set key d).Keyed := by
  refine ⟨by rw [keys_set]; exact h.nodup, ?_⟩
  intro k e he
  rcases mem_set.mp he with ⟨rfl, -, heq⟩ | ⟨-, he'⟩
  · rw [Option.some.inj heq]
    exact haddress
  · exact h.address k e he'

theorem Keyed.insert (h : m.Keyed) (hkey : key ∉ m.keys) {o : Option PCIDevice}
    (haddress : ∀ d, o = some d → d.attrs.value .address = key) : (m.insert key o).Keyed := by
  refine ⟨keys_insert_nodup h.nodup hkey, ?_⟩
  intro k e he
  rcases List.mem_cons.mp (insert_perm.mem_iff.mp he) with heq | he'
  · obtain ⟨rfl, ho⟩ := Prod.mk.inj heq
    exact haddress e ho.symm
  · exact h.address k e he'

theorem Keyed.erase (h : m.Keyed) (key : Text) : (m.erase key).Keyed := by
  refine ⟨(List.filter_sublist.map Prod.fst).nodup h.nodup, ?_⟩
  intro k e he
  exact h.address k e (mem_erase.mp he).1

end PciMap

namespace HostSharePCI

open PciMap TwoTries

section Keyed

variable {m m' : PciMap}

theorem Keyed.serve {sr : PciCapacity} {device device' : PciAttribute} {a a' : Assign}
    {outcome : Outcome} (h : a.map.Keyed)
    (hserve : serve sr device a = some (outcome, device', a')) : a'.map.Keyed := by
  by_cases hfound : ∃ k d, pick (choice device) a.map = .found k d
  · obtain ⟨k, d, hpick⟩ := hfound
    obtain ⟨-, before, after, hmap, -⟩ := (pick_found_iff _ _ _ _).mp hpick
    have haddress := h.address k d (by rw [hmap]; exact List.mem_append_right _ List.mem_cons_self)
    have hgiven : Given sr device a k d (HostSharePCI.serve sr device a) := serve_found hpick
    rcases hgiven with ⟨-, hend⟩ | ⟨-, _, palloc', hend⟩
    · rw [hserve, Option.some.injEq, Prod.mk.injEq, Prod.mk.injEq] at hend
      rw [hend.2.2]
      exact h.set haddress
    · rw [hserve, Option.some.injEq, Prod.mk.injEq, Prod.mk.injEq] at hend
      rw [hend.2.2]
      exact h.set haddress
  · have hend : HostSharePCI.serve sr device a = none ∨ _ :=
      serve_not_found fun k d hp => hfound ⟨k, d, hp⟩
    rcases hend with hend | hend
    · rw [hserve] at hend
      exact absurd hend (by simp)
    · rw [hserve, Option.some.injEq, Prod.mk.injEq, Prod.mk.injEq] at hend
      rw [hend.2.2]
      exact h

theorem Keyed.serveAll (sr : PciCapacity) (devs : List PciAttribute) :
    ∀ {a a' : Assign} {outcome : Outcome} {ds : List PciAttribute}, a.map.Keyed →
      serveAll sr devs a = some (outcome, ds, a') → a'.map.Keyed := by
  induction devs with
  | nil =>
    intro a a' outcome ds h hserve
    rw [HostSharePCI.serveAll, Option.some.injEq, Prod.mk.injEq, Prod.mk.injEq] at hserve
    rw [← hserve.2.2]
    exact h
  | cons device devs ih =>
    intro a a' outcome ds h hserve
    rw [HostSharePCI.serveAll] at hserve
    rcases hone : HostSharePCI.serve sr device a with _ | ⟨o, device', a₁⟩
    · rw [hone] at hserve
      exact absurd hserve (by simp)
    have hkeyed := Keyed.serve h hone
    rw [hone] at hserve
    cases o with
    | assigned =>
      obtain ⟨⟨o', ds', a₂⟩, htail, heq⟩ := Option.map_eq_some_iff.mp hserve
      rw [Prod.mk.injEq, Prod.mk.injEq] at heq
      rw [← heq.2.2]
      exact ih hkeyed htail
    | noDevice | noAddress =>
      rw [Option.some.injEq, Prod.mk.injEq, Prod.mk.injEq] at hserve
      rw [← hserve.2.2]
      exact hkeyed

theorem Keyed.add {sr : PciCapacity} (h : m.Keyed) {outcome : Outcome} {devs' : List PciAttribute}
    (hadd : add m sr = some (outcome, devs', m')) : m'.Keyed := by
  obtain ⟨hnone, hsome⟩ := add_eq m sr
  rcases hserve : HostSharePCI.serveAll sr (order sr.pci) ⟨m, fun _ => ∅⟩ with _ | ⟨o, ds, a'⟩
  · rw [hnone hserve] at hadd
    exact absurd hadd (by simp)
  · obtain ⟨_, hadd', -⟩ := hsome _ _ _ hserve
    rw [hadd, Option.some.injEq, Prod.mk.injEq, Prod.mk.injEq] at hadd'
    rw [hadd'.2.2]
    have hstart : (Assign.mk m fun _ => ∅).map.Keyed := h
    exact Keyed.serveAll sr _ hstart hserve

theorem Keyed.release (h : m.Keyed) {key : Text} {d : PCIDevice}
    (hfind : m.find key = some (some d)) : (m.set key d.release).Keyed :=
  h.set (h.address key d (mem_of_find hfind))

theorem Keyed.delByAddress (h : m.Keyed) {vmid : ℤ} {device device' : PciAttribute}
    (hdel : delByAddress vmid device m = some (device', m')) : m'.Keyed := by
  unfold HostSharePCI.delByAddress at hdel
  split at hdel
  · rw [← (Prod.mk.inj (Option.some.inj hdel)).2]
    exact h
  · exact absurd hdel (by simp)
  · rename_i d hfind
    split_ifs at hdel with hown
    · rw [← (Prod.mk.inj (Option.some.inj hdel)).2]
      exact Keyed.release h hfind
    · rw [← (Prod.mk.inj (Option.some.inj hdel)).2]
      exact h

theorem Keyed.delDevice (h : m.Keyed) {vmid : ℤ} {device device' : PciAttribute}
    (hdel : delDevice vmid device m = some (device', m')) : m'.Keyed := by
  unfold HostSharePCI.delDevice at hdel
  split at hdel
  · exact Keyed.delByAddress h hdel
  · exact absurd hdel (by simp)
  · rename_i d hfind
    split_ifs at hdel with hown
    · rw [← (Prod.mk.inj (Option.some.inj hdel)).2]
      exact Keyed.release h hfind
    · exact Keyed.delByAddress h hdel

theorem Keyed.delDevices {vmid : ℤ} (devs : List PciAttribute) :
    ∀ {m m' : PciMap} {devs' : List PciAttribute}, m.Keyed →
      delDevices vmid devs m = some (devs', m') → m'.Keyed := by
  induction devs with
  | nil =>
    intro m m' devs' h hdel
    rw [← (Prod.mk.inj (Option.some.inj hdel)).2]
    exact h
  | cons device devs ih =>
    intro m m' devs' h hdel
    rw [HostSharePCI.delDevices] at hdel
    rcases hone : HostSharePCI.delDevice vmid device m with _ | ⟨device', m₁⟩
    · rw [hone] at hdel
      exact absurd hdel (by simp)
    · rw [hone] at hdel
      obtain ⟨⟨ds, m₂⟩, htail, heq⟩ := Option.map_eq_some_iff.mp hdel
      rw [← (Prod.mk.inj heq).2]
      exact ih (Keyed.delDevice h hone) htail

theorem Keyed.revertDevices (devs : List PciAttribute) :
    ∀ {m : PciMap} (address : Text), m.Keyed → (revertDevices address devs m).2.Keyed := by
  induction devs with
  | nil => exact fun _ h => h
  | cons device devs ih =>
    intro m address h
    rw [HostSharePCI.revertDevices]
    dsimp only
    split
    · exact ih _ h
    · split
      · exact ih _ h
      · exact ih _ h
      · rename_i hfind
        exact ih _ (h.insert (not_mem_keys_of_find hfind) (fun _ ho => absurd ho (by simp)))

theorem updateMonitorAttr_address (stored monitored : PciAttribute) {name : PciName}
    (hname : name ≠ .address) (removeEmpty : Bool) :
    updateMonitorAttr stored monitored name removeEmpty .address = stored .address := by
  unfold updateMonitorAttr
  split_ifs
  · exact Function.update_of_ne (fun h => hname h.symm) _ _
  · exact Function.update_of_ne (fun h => hname h.symm) _ _
  · rfl

theorem monitored_address (d : PCIDevice) (r : PciReport) :
    (monitored d r).attrs.value .address = d.attrs.value .address := by
  unfold monitored PciAttribute.value
  dsimp only
  rw [updateMonitorAttr_address _ _ (by decide), updateMonitorAttr_address _ _ (by decide),
    updateMonitorAttr_address _ _ (by decide)]

theorem Keyed.takeReports (conf : PciConf) (reports : List PciReport) :
    ∀ {m m' : PciMap} {missing missing' : List Text}, m.Keyed →
      takeReports conf reports missing m = some (missing', m') → m'.Keyed := by
  induction reports with
  | nil =>
    intro m m' missing missing' h htake
    rw [← (Prod.mk.inj (Option.some.inj htake)).2]
    exact h
  | cons r reports ih =>
    intro m m' missing missing' h htake
    rw [HostSharePCI.takeReports] at htake
    split at htake
    · dsimp only at htake
      split at htake
      · exact absurd htake (by simp)
      · rename_i d hfind
        refine ih (h.set ?_) htake
        rw [monitored_address]
        exact h.address _ d (mem_of_find hfind)
      · rename_i hfind
        refine ih (h.insert (not_mem_keys_of_find hfind) ?_) htake
        rintro d hd
        rw [← Option.some.inj hd]
        rfl
    · exact ih h htake

theorem Keyed.dropMissing (missing : List Text) :
    ∀ {m m' : PciMap}, m.Keyed → dropMissing missing m = some m' → m'.Keyed := by
  induction missing with
  | nil =>
    intro m m' h hdrop
    rw [← Option.some.inj hdrop]
    exact h
  | cons key missing ih =>
    intro m m' h hdrop
    rw [HostSharePCI.dropMissing] at hdrop
    split at hdrop
    · exact ih h hdrop
    · exact absurd hdrop (by simp)
    · refine ih ?_ hdrop
      split
      · exact h
      · exact h.erase key

/-- **The addresses in every state of a host.** -/
theorem keyed_of_run (h : Transition.Run step [] m) : m.Keyed := by
  refine h.inv ⟨List.nodup_nil, by simp⟩ ?_
  intro s op t hs _ hstep
  cases op with
  | add sr =>
    obtain ⟨⟨outcome, devs', m'⟩, hadd, rfl⟩ := Option.map_eq_some_iff.mp hstep
    exact Keyed.add hs hadd
  | del sr =>
    obtain ⟨⟨devs', m'⟩, hdel, rfl⟩ := Option.map_eq_some_iff.mp hstep
    exact Keyed.delDevices sr.pci hs hdel
  | revert devs =>
    rw [← Option.some.inj hstep]
    exact Keyed.revertDevices devs [] hs
  | setMonitorization reports conf =>
    unfold step setMonitorization at hstep
    dsimp only at hstep
    split at hstep
    · exact absurd hstep (by simp)
    · rename_i htake
      exact Keyed.dropMissing _ (Keyed.takeReports conf reports hs htake) hstep

/-- A device is reported and given to a machine. -/
theorem keyed_busRequest : ∃ m₁ m₂, step [] (.setMonitorization [freeReport] allDevices) = some m₁ ∧
    step m₁ (.add (busRequest "0x01")) = some m₂ ∧ m₂.keys = ["0000:01:00.0".toList] ∧ m₂.Keyed :=
  ⟨_, _, rfl, rfl, rfl, keyed_of_run ((Transition.Reach.refl.tail
    (e := .setMonitorization [freeReport] allDevices) trivial rfl).tail
      (e := .add (busRequest "0x01")) trivial rfl)⟩

end Keyed

/-! ## The devices that an assignment has given -/

theorem setPciAddress_address (device : PciAttribute) (palloc : PortAlloc) (busIndex : Bool)
    (nodes : List (ℤ × ℤ)) :
    (setPciAddress device palloc busIndex nodes).2.1 .address = device .address := by
  have hnuma : ∀ n total, (setNumaAddress device palloc n total).2.1 .address = device .address := by
    intro n total
    unfold setNumaAddress
    dsimp only
    split
    · rfl
    · split
      · rfl
      · simp [PciAttribute.replace]
  have hflat : ∀ slot, (setFlatAddress device palloc slot busIndex).2.1 .address =
      device .address := by
    intro slot
    unfold setFlatAddress
    dsimp only
    split
    · simp [PciAttribute.replace, PciAttribute.remove]
    · simp [PciAttribute.replace, PciAttribute.remove]
  unfold setPciAddress
  split
  · rfl
  · dsimp only
    split_ifs
    · exact hnuma _ _
    · exact hflat _
    · exact hnuma _ _
    · exact hflat _

/-- A device that has been given has the address of a device of the host. -/
theorem addressAll_address {sr : PciCapacity} (pairs : List (PciAttribute × PCIDevice)) :
    ∀ {palloc palloc' : PortAlloc} {ds : List PciAttribute},
      addressAll sr pairs palloc = some (ds, palloc') →
        ∀ device ∈ ds, ∃ p ∈ pairs, device.value .address = p.2.attrs.value .address := by
  induction pairs with
  | nil =>
    intro palloc palloc' ds h device hmem
    rw [← (Prod.mk.inj (Option.some.inj h)).1] at hmem
    exact absurd hmem List.not_mem_nil
  | cons p pairs ih =>
    intro palloc palloc' ds h device hmem
    obtain ⟨request, d⟩ := p
    rw [addressAll] at h
    split_ifs at h
    obtain ⟨⟨ds', palloc''⟩, htail, heq⟩ := Option.map_eq_some_iff.mp h
    rw [← (Prod.mk.inj heq).1] at hmem
    rcases List.mem_cons.mp hmem with rfl | hmem
    · refine ⟨(request, d), List.mem_cons_self, ?_⟩
      rw [PciAttribute.value, addressOne, setPciAddress_address,
        pciAttribute_eq request d sr.vgpuProfile (by decide)]
      rfl
    · obtain ⟨p, hp, haddress⟩ := ih htail device hmem
      exact ⟨p, List.mem_cons_of_mem _ hp, haddress⟩

theorem FirstFit.mem {free : PciAttribute → List Entry → Entry → Prop} {m : PciMap}
    {devs : List PciAttribute} :
    ∀ {earlier picks : List Entry}, FirstFit free m devs earlier picks →
      ∀ e ∈ picks, (e.1, some e.2) ∈ m := by
  induction devs with
  | nil =>
    rintro earlier picks rfl e he
    exact absurd he List.not_mem_nil
  | cons device devs ih =>
    intro earlier picks h e he
    cases picks with
    | nil => exact absurd h id
    | cons e' picks =>
      rcases List.mem_cons.mp he with rfl | he
      · exact h.1.mem
      · exact ih h.2 e he

/-- The devices of a machine have the addresses of devices that it holds. -/
theorem add_addresses {m m' : PciMap} {sr : PciCapacity} {devs' : List PciAttribute}
    (hvmid : sr.vmid ≠ -1) (hkeyed : m.Keyed) (hadd : add m sr = some (.assigned, devs', m')) :
    ∀ device ∈ devs', m'.Held (device.value .address) sr.vmid := by
  obtain ⟨picks, ds, palloc', hfit, haddress, hperm, rfl⟩ := add_assigned hvmid hkeyed.nodup hadd
  intro device hdevice
  obtain ⟨⟨request, d⟩, hp, hvalue⟩ := addressAll_address _ haddress device (hperm.mem_iff.mp hdevice)
  obtain ⟨e, he, rfl⟩ := List.mem_map.mp (List.of_mem_zip hp).2
  have hmem := hfit.mem e he
  have hkey : device.value .address = e.1 := hvalue.trans (hkeyed.address e.1 e.2 hmem)
  rw [hkey]
  refine ⟨own sr.vmid e.2, ?_, rfl⟩
  have hgiven : (e.1, (some e.2).map fun d => if e.1 ∈ keysOf picks then own sr.vmid d else d) ∈
      mark sr.vmid (keysOf picks) m := List.mem_map_of_mem hmem
  rwa [Option.map_some, if_pos (List.mem_map_of_mem he)] at hgiven

/-! ## The release of a machine -/

/-- The release frees every device of the machine, and changes no device of another one. -/
def Released (m : PciMap) (sr : PciCapacity) : Prop :=
  ∃ devs' m', del m sr = some (devs', m') ∧ (∀ k, ¬m'.Held k sr.vmid) ∧
    ∀ k d, (k, some d) ∈ m → d.vmid ≠ sr.vmid → (k, some d) ∈ m'

/-- **Which machines are released.**  No previous address may have a null entry, and every address
that the machine holds is the previous address of one of its devices, or the address of one whose
previous address is spent when its turn comes. -/
theorem released_iff {m m' : PciMap} {sr : PciCapacity} {devs' : List PciAttribute}
    (hvmid : sr.vmid ≠ -1) (hkeyed : m.Keyed) (hadd : add m sr = some (.assigned, devs', m')) :
    Released m' { sr with pci := devs' } ↔
      (∀ device ∈ devs', (device.value .prevAddress, none) ∉ m') ∧
        ∀ k, m'.Held k sr.vmid → (∃ device ∈ devs', device.value .prevAddress = k) ∨
          ∃ j c, (devs'.map addressPair)[j]? = some (c, k) ∧
            Spent (heldBy sr.vmid m') (devs'.map addressPair) j := by
  have hnodup := (Keyed.add hkeyed hadd).nodup
  have haddresses : ∀ device ∈ devs', (device.value .address, none) ∉ m' := by
    intro device hdevice hnull
    obtain ⟨d, hd, -⟩ := add_addresses hvmid hkeyed hadd device hdevice
    exact absurd (eq_of_mem hnodup hnull hd) (by simp)
  obtain ⟨hnone, hsome⟩ := delDevices_turns hvmid devs' hnodup haddresses
  -- what the machine still holds after the last turn
  have hleft : ∀ k, k ∉ (devs'.map addressPair).foldl turn (heldBy sr.vmid m') ↔
      (m'.Held k sr.vmid → (∃ device ∈ devs', device.value .prevAddress = k) ∨
        ∃ j c, (devs'.map addressPair)[j]? = some (c, k) ∧
          Spent (heldBy sr.vmid m') (devs'.map addressPair) j) := by
    intro k
    rw [mem_foldl_turn]
    constructor
    · intro hout hheld
      by_contra hnot
      obtain ⟨hfirst, hsecond⟩ := not_or.mp hnot
      refine hout ⟨hheld, ?_, fun j c hj hspent => hsecond ⟨j, c, hj, hspent⟩⟩
      rintro p hp rfl
      obtain ⟨device, hdevice, rfl⟩ := List.mem_map.mp hp
      exact hfirst ⟨device, hdevice, rfl⟩
    · rintro h ⟨hheld, hfirst, hsecond⟩
      rcases h hheld with ⟨device, hdevice, rfl⟩ | ⟨j, c, hj, hspent⟩
      · exact hfirst _ (List.mem_map_of_mem hdevice) rfl
      · exact hsecond j c hj hspent
  constructor
  · rintro ⟨devs'', m'', hdel, hfree, -⟩
    have hfreed := hsome devs'' m'' hdel
    refine ⟨?_, ?_⟩
    · intro device hdevice hnull
      rw [del, hnone.mpr ⟨device, hdevice, hnull⟩] at hdel
      exact absurd hdel (by simp)
    · intro k
      rw [← hleft, ← hfreed.held]
      exact hfree k
  · rintro ⟨hnull, hall⟩
    have hruns : delDevices sr.vmid devs' m' ≠ none := by
      intro h
      obtain ⟨device, hdevice, hmem⟩ := hnone.mp h
      exact hnull device hdevice hmem
    obtain ⟨⟨devs'', m''⟩, hdel⟩ := Option.ne_none_iff_exists'.mp hruns
    have hfreed := hsome devs'' m'' hdel
    refine ⟨devs'', m'', hdel, ?_, hfreed.other⟩
    intro k hk
    have hin : k ∈ heldBy sr.vmid m'' := hk
    rw [hfreed.held] at hin
    exact (hleft k).mpr (hall k) hin

/-! ## A previous address that is the address of another device -/

/-- A free device with its addresses. -/
def freeDevice (shortAddress : Text) : PCIDevice where
  vendorId := 0x10de
  deviceId := 0x1db6
  classId := 0x0302
  vmid := -1
  address := "0000:".toList ++ shortAddress
  attrs := fun
    | .address => some ("0000:".toList ++ shortAddress)
    | .shortAddress => some shortAddress
    | .vendor => some "10de".toList
    | _ => none
  vmidAttr := .number (-1)

/-- A host with two free devices. -/
def freeHost : PciMap :=
  [("0000:01:00.0".toList, some (freeDevice "01:00.0".toList)),
    ("0000:02:00.0".toList, some (freeDevice "02:00.0".toList))]

/-- A request for a device of the vendor, which had an address on the host before. -/
def movedRequest (address : Text) : PciAttribute
  | .vendor => some "10de".toList
  | .address => some address
  | _ => none

/-- A machine with two devices that comes from another host. -/
def movedMachine (first second : Text) : PciCapacity :=
  ⟨7, false, [], [movedRequest first, movedRequest second], []⟩

theorem keyed_freeHost : freeHost.Keyed := by
  refine ⟨by decide, ?_⟩
  intro k d hd
  rcases List.mem_cons.mp hd with heq | hd
  · obtain ⟨rfl, heq'⟩ := Prod.mk.inj heq
    rw [Option.some.inj heq']
    decide
  · rcases List.mem_cons.mp hd with heq | hd
    · obtain ⟨rfl, heq'⟩ := Prod.mk.inj heq
      rw [Option.some.inj heq']
      decide
    · exact absurd hd List.not_mem_nil

/-- Both addresses are foreign. -/
theorem released_movedMachine :
    ∃ devs' m', add freeHost (movedMachine "0000:08:00.0".toList "0000:09:00.0".toList) =
        some (.assigned, devs', m') ∧
      (Released m' ⟨7, false, [], devs', []⟩ ↔
        (∀ device ∈ devs', (device.value .prevAddress, none) ∉ m') ∧
          ∀ k, m'.Held k 7 → (∃ device ∈ devs', device.value .prevAddress = k) ∨
            ∃ j c, (devs'.map addressPair)[j]? = some (c, k) ∧
              Spent (heldBy 7 m') (devs'.map addressPair) j) := by
  have hstart : (add freeHost (movedMachine "0000:08:00.0".toList "0000:09:00.0".toList)).map
      (fun r => r.1) = some .assigned := by decide
  obtain ⟨⟨outcome, devs', m'⟩, hadd, heq⟩ := Option.map_eq_some_iff.mp hstart
  have hassigned : outcome = .assigned := heq
  subst hassigned
  exact ⟨devs', m', hadd, released_iff (by decide) keyed_freeHost hadd⟩

/-- The first device has the address of the second one as its previous address.  Its turn frees the
second device, and the turn of the second one frees nothing. -/
theorem not_released :
    ¬ ∀ (m m' : PciMap) (sr : PciCapacity) (devs' : List PciAttribute), sr.vmid ≠ -1 → m.Keyed →
      (∀ k, ¬m.Held k sr.vmid) → add m sr = some (.assigned, devs', m') →
        Released m' { sr with pci := devs' } := by
  intro h
  have hstart : ((add freeHost (movedMachine "0000:02:00.0".toList "0000:09:00.0".toList)).map
      fun r => (r.1, (delDevices 7 r.2.1 r.2.2).map fun q =>
        q.2.map fun e => e.2.map PCIDevice.vmid)) =
          some (.assigned, some [some 7, some (-1)]) := by decide
  obtain ⟨⟨outcome, devs', m'⟩, hadd, heq⟩ := Option.map_eq_some_iff.mp hstart
  obtain ⟨hassigned, hdel⟩ := Prod.mk.inj heq
  have hassigned : outcome = .assigned := hassigned
  subst hassigned
  have hfresh : ∀ k, ¬freeHost.Held k 7 := by
    rintro k ⟨d, hd, hheld⟩
    have hvmid : some d ∈ [some (freeDevice "01:00.0".toList), some (freeDevice "02:00.0".toList)] :=
      List.mem_map_of_mem (f := Prod.snd) hd
    rcases List.mem_cons.mp hvmid with heq' | hvmid
    · rw [Option.some.inj heq'] at hheld
      exact absurd hheld (by decide)
    · rw [Option.some.inj (List.mem_singleton.mp hvmid)] at hheld
      exact absurd hheld (by decide)
  obtain ⟨devs'', m'', hdel', hfree, -⟩ := h _ m' _ devs' (by decide) keyed_freeHost hfresh hadd
  have hvmids : m''.map (fun e => e.2.map PCIDevice.vmid) = [some 7, some (-1)] := by
    have hrun : delDevices 7 devs' m' = some (devs'', m'') := hdel'
    rw [hrun] at hdel
    exact Option.some.inj hdel
  have hmem : some 7 ∈ m''.map fun e => e.2.map PCIDevice.vmid := by
    rw [hvmids]
    exact List.mem_cons_self
  obtain ⟨⟨k, o⟩, he, ho⟩ := List.mem_map.mp hmem
  obtain ⟨d, rfl, hd⟩ := Option.map_eq_some_iff.mp ho
  exact hfree k ⟨d, he, hd⟩

end HostSharePCI
