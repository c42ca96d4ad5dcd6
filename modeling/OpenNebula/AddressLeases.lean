/-
# What the operations on a range do to its leases

An operation on an address range takes some addresses for one owner (`Takes`), takes the owner out
of some addresses (`Frees`), or changes no lease.  Which of these it does, and what it has checked
before, is said here once for each operation; the results about whole runs only use these lemmas.
-/
import OpenNebula.AddressRange
import OpenNebula.Transition

namespace AddressRange

/-! ## Changes of the leases -/

/-- The leases of one owner on some addresses. -/
def leasesOf (owner : ℤ) (is : List ℕ) : Finset (ℕ × ℤ) := is.toFinset.image (fun i => (i, owner))

theorem mem_leasesOf {owner o : ℤ} {is : List ℕ} {i : ℕ} :
    (i, o) ∈ leasesOf owner is ↔ i ∈ is ∧ o = owner := by
  simp only [leasesOf, Finset.mem_image, List.mem_toFinset, Prod.mk.injEq]
  constructor
  · rintro ⟨j, hj, rfl, rfl⟩
    exact ⟨hj, rfl⟩
  · rintro ⟨hi, rfl⟩
    exact ⟨i, hi, rfl, rfl⟩

theorem mem_usedIndexes {ar : AddressRange} {i : ℕ} :
    i ∈ ar.usedIndexes ↔ ∃ o, (i, o) ∈ ar.allocated := by
  simp [usedIndexes]

/-- Only the leases, their text and the cursor `next` change. -/
structure Moves (ar ar' : AddressRange) : Prop where
  base : ar' = { ar with attr := ar'.attr, next := ar'.next, allocated := ar'.allocated }
  attr : ∀ name, name ≠ .allocated → ar'.attr name = ar.attr name
  text : ar'.attr .allocated = leasesText ar'.leases ∨
    (ar'.attr .allocated = ar.attr .allocated ∧ ar'.allocated = ar.allocated)

namespace Moves

variable {ar ar' ar'' : AddressRange}

theorem refl (ar : AddressRange) : Moves ar ar := ⟨rfl, fun _ _ => rfl, Or.inr ⟨rfl, rfl⟩⟩

theorem type (h : Moves ar ar') : ar'.type = ar.type := by rw [h.base]
theorem shared (h : Moves ar ar') : ar'.shared = ar.shared := by rw [h.base]
theorem size (h : Moves ar ar') : ar'.size = ar.size := by rw [h.base]
theorem mac (h : Moves ar ar') : ar'.mac = ar.mac := by rw [h.base]
theorem ip (h : Moves ar ar') : ar'.ip = ar.ip := by rw [h.base]
theorem ip6 (h : Moves ar ar') : ar'.ip6 = ar.ip6 := by rw [h.base]

theorem trans (h : Moves ar ar') (h' : Moves ar' ar'') : Moves ar ar'' where
  base := by
    have h1 := h'.base
    rw [h.base] at h1
    exact h1
  attr := fun name hname => (h'.attr name hname).trans (h.attr name hname)
  text := by
    rcases h'.text with ht | ⟨ht, ha⟩
    · exact Or.inl ht
    · rcases h.text with ht' | ⟨ht', ha'⟩
      · left
        rw [ht, ht', leases, leases, ha]
      · exact Or.inr ⟨ht.trans ht', ha.trans ha'⟩

end Moves

/-- The leases are set, and their text is written. -/
theorem moves_allocatedToAttr (ar : AddressRange) (m : Finset (ℕ × ℤ)) :
    Moves ar (allocatedToAttr { ar with allocated := m }) where
  base := rfl
  attr := fun _ hname => ar.attr.replace_of_ne _ hname
  text := by
    left
    show VectorAttribute.replace ar.attr .allocated _ .allocated = _
    rw [VectorAttribute.replace_self]
    rfl

/-- Some addresses are taken for an owner. -/
structure Takes (ar ar' : AddressRange) (owner : ℤ) (is : List ℕ) : Prop where
  moves : Moves ar ar'
  allocated : ar'.allocated = ar.allocated ∪ leasesOf owner is

/-- An owner is taken out of some addresses that it has. -/
structure Frees (ar ar' : AddressRange) (owner : ℤ) (is : List ℕ) : Prop where
  moves : Moves ar ar'
  allocated : ar'.allocated = ar.allocated \ leasesOf owner is
  nodup : is.Nodup
  held : ∀ i ∈ is, (i, owner) ∈ ar.allocated

/-- No lease changes. -/
structure Keeps (ar ar' : AddressRange) : Prop where
  moves : Moves ar ar'
  allocated : ar'.allocated = ar.allocated

theorem Keeps.refl (ar : AddressRange) : Keeps ar ar := ⟨Moves.refl ar, rfl⟩

theorem Keeps.usedIndexes {ar ar' : AddressRange} (h : Keeps ar ar') :
    ar'.usedIndexes = ar.usedIndexes := by
  rw [AddressRange.usedIndexes, h.allocated, AddressRange.usedIndexes]

theorem takes_setAllocated (owner : ℤ) (is : List ℕ) :
    ∀ ar : AddressRange, Takes ar (ar.setAllocated owner is) owner is := by
  induction is with
  | nil =>
    intro ar
    exact ⟨Moves.refl ar, by simp [setAllocated, leasesOf]⟩
  | cons i is ih =>
    intro ar
    have h := ih (allocatedToAttr { ar with allocated := insert (i, owner) ar.allocated })
    refine ⟨(moves_allocatedToAttr ar _).trans h.moves, ?_⟩
    show (setAllocated _ owner is).allocated = _
    rw [h.allocated]
    ext ⟨j, o⟩
    simp only [allocatedToAttr, Finset.mem_union, Finset.mem_insert, Prod.mk.injEq, mem_leasesOf,
      List.mem_cons]
    tauto

theorem takes_keeps {ar ar₁ ar' : AddressRange} {owner : ℤ} {is : List ℕ} (h : Keeps ar ar₁)
    (h' : Takes ar₁ ar' owner is) : Takes ar ar' owner is :=
  ⟨h.moves.trans h'.moves, by rw [h'.allocated, h.allocated]⟩

/-! ## Lookups -/

/-- What a lookup has checked of the index it returns. -/
structure Found (ar : AddressRange) (checkFree : Bool) (i : ℕ) : Prop where
  lt_size : i < ar.size
  lt_word : i < 2 ^ 32
  free : checkFree = true → i ∉ ar.usedIndexes

theorem found_of_checkIndex {ar : AddressRange} {w : UInt32} {checkFree : Bool} {i : ℕ}
    (h : ar.checkIndex w.toNat checkFree = some i) : Found ar checkFree i := by
  unfold checkIndex at h
  split at h
  · exact absurd h (by simp)
  · rename_i hnot
    obtain ⟨hfree, hsize⟩ := not_or.mp hnot
    rw [Option.some.injEq] at h
    subst h
    exact ⟨by omega, w.toNat_lt, fun hc hi => hfree ⟨hc, hi⟩⟩

theorem isValidMac_some {ar : AddressRange} {env : ArEnv} {s : Text} {checkFree : Bool} {i : ℕ}
    (h : ar.isValidMac env s checkFree = some i) : Found ar checkFree i := by
  unfold isValidMac at h
  split at h
  · exact absurd h (by simp)
  · split at h
    · exact absurd h (by simp)
    · exact found_of_checkIndex h

theorem isValidIp_some {ar : AddressRange} {s : Text} {checkFree : Bool} {i : ℕ}
    (h : ar.isValidIp s checkFree = some i) : Found ar checkFree i := by
  unfold isValidIp at h
  split at h
  · split at h
    · exact absurd h (by simp)
    · split at h
      · exact absurd h (by simp)
      · exact found_of_checkIndex h
  · exact absurd h (by simp)

theorem isValidIp6_some {ar : AddressRange} {env : ArEnv} {s : Text} {checkFree : Bool} {i : ℕ}
    (h : ar.isValidIp6 env s checkFree = some i) : Found ar checkFree i := by
  unfold isValidIp6 at h
  split at h
  · split at h
    · exact absurd h (by simp)
    · split at h
      · exact absurd h (by simp)
      · exact found_of_checkIndex h
  · exact absurd h (by simp)

/-! ## Free addresses -/

/-- Addresses that `get_addr` has found: they are free, and in the range, unless a single address
is taken from a cursor that is outside. -/
structure Block (ar : AddressRange) (first rsize : ℕ) : Prop where
  lt_word : first < 2 ^ 32
  le_word : first + rsize ≤ 2 ^ 32
  free : ∀ k < rsize, first + k ∉ ar.usedIndexes
  bound : ar.ipam = true ∨ rsize ≠ 1 ∨ ar.next.toNat < ar.size →
    first < ar.size ∧ ∀ k < rsize, first + k < ar.size

theorem singleLoop_some {used : Finset ℕ} {arSize : ℕ} (n : ℕ) :
    ∀ {next i : ℕ}, next < 2 ^ 32 → (singleLoop used arSize n next).1 = some i →
      i ∉ used ∧ i < 2 ^ 32 ∧ (0 < arSize → i = next ∨ i < arSize) := by
  induction n with
  | zero =>
    intro next i _ h
    exact absurd h (by simp [singleLoop])
  | succ n ih =>
    intro next i hnext h
    unfold singleLoop at h
    split at h
    · have hlt : (next + 1) % 2 ^ 32 % arSize < 2 ^ 32 :=
        lt_of_le_of_lt (Nat.mod_le _ _) (Nat.mod_lt _ (by norm_num))
      obtain ⟨hfree, hword, hbound⟩ := ih hlt h
      refine ⟨hfree, hword, ?_⟩
      intro hpos
      have := Nat.mod_lt ((next + 1) % 2 ^ 32) hpos
      rcases hbound hpos with rfl | hi
      · exact Or.inr this
      · exact Or.inr hi
    · rename_i hfree
      rw [Option.some.injEq] at h
      subst h
      exact ⟨hfree, hnext, fun _ => Or.inl rfl⟩

theorem rangeInner_true {used : Finset ℕ} {arSize : ℕ} (hsize : arSize < 2 ^ 32) (n : ℕ) :
    ∀ {i j : ℕ}, rangeInner used arSize n i = (true, j) →
      j = i + n ∧ ∀ k < n, i + k ∉ used ∧ i + k < arSize := by
  induction n with
  | zero =>
    intro i j h
    have hj : i = j := (Prod.mk.inj h).2
    exact ⟨hj.symm, fun k hk => absurd hk (by omega)⟩
  | succ n ih =>
    intro i j h
    unfold rangeInner at h
    split at h
    · exact absurd h (by simp)
    · rename_i hnot
      obtain ⟨hfree, hlt⟩ := not_or.mp hnot
      rw [Nat.mod_eq_of_lt (by omega)] at h
      obtain ⟨hj, hall⟩ := ih h
      refine ⟨by omega, ?_⟩
      intro k hk
      cases k with
      | zero => exact ⟨hfree, by omega⟩
      | succ k =>
        have hk' := hall k (by omega)
        rw [show i + (k + 1) = i + 1 + k by omega]
        exact hk'

theorem rangeLoop_some {used : Finset ℕ} {arSize rsize : ℕ} (hsize : arSize < 2 ^ 32) (n : ℕ) :
    ∀ {i first : ℕ}, rangeLoop used arSize rsize n i = some first →
      first < arSize ∧ ∀ k < rsize, first + k ∉ used ∧ first + k < arSize := by
  induction n with
  | zero =>
    intro i first h
    exact absurd h (by simp [rangeLoop])
  | succ n ih =>
    intro i first h
    unfold rangeLoop at h
    split at h
    · rename_i hi
      split at h
      · exact ih h
      · split at h
        · rename_i j hj
          obtain ⟨rfl, hall⟩ := rangeInner_true hsize rsize hj
          rw [Option.some.injEq, show i + rsize + 2 ^ 32 - rsize = i + 2 ^ 32 by omega,
            Nat.add_mod_right, Nat.mod_eq_of_lt (by omega)] at h
          subst h
          exact ⟨hi, hall⟩
        · exact ih h
    · exact absurd h (by simp)

/-- **`get_addr`.** -/
theorem getAddr_cases {ar ar' : AddressRange} {env : ArEnv} {rsize : ℕ} {r : Option ℕ}
    (h : ar.getAddr env rsize = (ar', r)) :
    Keeps ar ar' ∧ ∀ first, r = some first → Block ar first rsize := by
  have hword : ar.size % 2 ^ 32 < 2 ^ 32 := Nat.mod_lt _ (by norm_num)
  have hle : ar.size % 2 ^ 32 ≤ ar.size := Nat.mod_le _ _
  unfold getAddr at h
  dsimp only at h
  split at h
  · split at h
    · obtain ⟨rfl, rfl⟩ := Prod.mk.inj h
      exact ⟨Keeps.refl ar, by simp⟩
    · split at h
      · obtain ⟨rfl, rfl⟩ := Prod.mk.inj h
        exact ⟨Keeps.refl ar, by simp⟩
      · rename_i index hvalid
        obtain ⟨rfl, rfl⟩ := Prod.mk.inj h
        refine ⟨Keeps.refl ar, ?_⟩
        intro first hfirst
        split at hfirst
        · rename_i hok
          rw [Option.some.injEq] at hfirst
          subst hfirst
          have hinner := rangeInner_true hword rsize (Prod.ext hok rfl)
          have hfound := isValidIp_some hvalid
          refine ⟨hfound.lt_word, ?_, fun k hk => (hinner.2 k hk).1, fun _ => ⟨hfound.lt_size, ?_⟩⟩
          · rcases Nat.eq_zero_or_pos rsize with rfl | hpos
            · exact hfound.lt_word.le
            · have := (hinner.2 (rsize - 1) (by omega)).2
              omega
          · intro k hk
            have := (hinner.2 k hk).2
            omega
        · exact absurd hfirst (by simp)
  · rename_i hipam
    split at h
    · rename_i hone
      obtain ⟨rfl, rfl⟩ := Prod.mk.inj h
      refine ⟨⟨⟨rfl, fun _ _ => rfl, Or.inr ⟨rfl, rfl⟩⟩, rfl⟩, ?_⟩
      intro first hfirst
      obtain ⟨hfree, hlt, hbound⟩ := singleLoop_some _ ar.next.toNat_lt hfirst
      refine ⟨hlt, by omega, ?_, ?_⟩
      · intro k hk
        rw [show first + k = first by omega]
        exact hfree
      · intro hcase
        have hnext : ar.next.toNat < ar.size := by
          rcases hcase with hcase | hcase | hcase
          · exact absurd hcase hipam
          · exact absurd hone hcase
          · exact hcase
        -- the loop has run, so there is an address
        have hpos : 0 < ar.size % 2 ^ 32 := by
          rcases Nat.eq_zero_or_pos (ar.size % 2 ^ 32) with hzero | hpos
          · rw [hzero] at hfirst
            exact absurd hfirst (by simp [singleLoop])
          · exact hpos
        have hin : first < ar.size := by
          rcases hbound hpos with rfl | hi <;> omega
        exact ⟨hin, fun k hk => by omega⟩
    · rename_i hone
      obtain ⟨rfl, rfl⟩ := Prod.mk.inj h
      refine ⟨Keeps.refl ar, ?_⟩
      intro first hfirst
      obtain ⟨hlt, hall⟩ := rangeLoop_some hword _ hfirst
      refine ⟨by omega, ?_, fun k hk => (hall k hk).1, fun _ => ⟨by omega, ?_⟩⟩
      · rcases Nat.eq_zero_or_pos rsize with rfl | hpos
        · omega
        · have := (hall (rsize - 1) (by omega)).2
          omega
      · intro k hk
        have := (hall k hk).2
        omega

/-! ## Allocation -/

section Allocation

variable {ar ar' : AddressRange} {env : ArEnv}

/-- Everything of an allocation but its leases is in the interface. -/
theorem takes_allocateByIndex (ar : AddressRange) (env : ArEnv) (index : ℕ) (ot : ObjectType)
    (obid : ℤ) (inherit : List AttrName) (nic : VectorAttribute) :
    Takes ar (ar.allocateByIndex env index ot obid inherit nic).1 (packOwner ot obid) [index] :=
  takes_setAllocated _ _ ar

theorem allocateFound_cases {found : Option ℕ} {ot : ObjectType} {obid : ℤ}
    {inherit : List AttrName} {nic : VectorAttribute} {r : Option VectorAttribute}
    (h : ar.allocateFound env found ot obid inherit nic = (ar', r)) :
    (r = none ∧ ar' = ar) ∨
      ∃ i nic', found = some i ∧ r = some nic' ∧ Takes ar ar' (packOwner ot obid) [i] := by
  unfold allocateFound at h
  split at h
  · obtain ⟨rfl, rfl⟩ := Prod.mk.inj h
    exact Or.inl ⟨rfl, rfl⟩
  · rename_i i
    split at h
    · obtain ⟨rfl, rfl⟩ := Prod.mk.inj h
      exact Or.inr ⟨i, _, rfl, rfl, takes_allocateByIndex ar env i ot obid inherit nic⟩
    · obtain ⟨rfl, rfl⟩ := Prod.mk.inj h
      exact Or.inl ⟨rfl, rfl⟩

/-- **`allocate_addr`.** -/
theorem allocateAddr_cases {ot : ObjectType} {obid : ℤ} {inherit : List AttrName}
    {nic : VectorAttribute} {r : Option VectorAttribute}
    (h : ar.allocateAddr env ot obid inherit nic = (ar', r)) :
    (r = none ∧ Keeps ar ar') ∨
      ∃ i nic', r = some nic' ∧ Block ar i 1 ∧ ar.shared = false ∧ ar.usedAddr < ar.size ∧
        Takes ar ar' (packOwner ot obid) [i] := by
  unfold allocateAddr at h
  split at h
  · obtain ⟨rfl, rfl⟩ := Prod.mk.inj h
    exact Or.inl ⟨rfl, Keeps.refl ar⟩
  · rename_i hnot
    obtain ⟨hshared, hroom⟩ := not_or.mp hnot
    split at h
    · rename_i ar₁ hget
      obtain ⟨rfl, rfl⟩ := Prod.mk.inj h
      exact Or.inl ⟨rfl, (getAddr_cases hget).1⟩
    · rename_i ar₁ i hget
      obtain ⟨rfl, rfl⟩ := Prod.mk.inj h
      obtain ⟨hkeeps, hblock⟩ := getAddr_cases hget
      exact Or.inr ⟨i, _, rfl, hblock i rfl, by simpa using hshared, by omega,
        takes_keeps hkeeps (takes_allocateByIndex ar₁ env i ot obid inherit nic)⟩

theorem holdFound_cases {found : Option ℕ} {r : Bool} (h : ar.holdFound env found = (ar', r)) :
    (r = false ∧ ar' = ar) ∨
      ∃ i, found = some i ∧ r = true ∧ Takes ar ar' (packOwner .vm (-1)) [i] := by
  unfold holdFound at h
  split at h
  · obtain ⟨rfl, rfl⟩ := Prod.mk.inj h
    exact Or.inl ⟨rfl, rfl⟩
  · rename_i i
    split at h
    · obtain ⟨rfl, rfl⟩ := Prod.mk.inj h
      exact Or.inr ⟨i, rfl, rfl, takes_setAllocated _ _ ar⟩
    · obtain ⟨rfl, rfl⟩ := Prod.mk.inj h
      exact Or.inl ⟨rfl, rfl⟩

/-! ## Release -/

theorem freeFound_cases {found : Option ℕ} {ot : ObjectType} {obid : ℤ} {r : Bool}
    (h : ar.freeFound env found ot obid = (ar', r)) :
    (r = false ∧ ar' = ar) ∨
      ∃ i, found = some i ∧ r = true ∧ Frees ar ar' (packOwner ot obid) [i] := by
  unfold freeFound at h
  split at h
  · obtain ⟨rfl, rfl⟩ := Prod.mk.inj h
    exact Or.inl ⟨rfl, rfl⟩
  · rename_i i
    split at h
    · unfold freeAllocated at h
      split at h
      · rename_i hmem
        obtain ⟨rfl, rfl⟩ := Prod.mk.inj h
        refine Or.inr ⟨i, rfl, rfl, moves_allocatedToAttr ar _, ?_, List.nodup_singleton i, ?_⟩
        · show ar.allocated.erase (i, packOwner ot obid) = _
          rw [Finset.erase_eq]
          rfl
        · intro j hj
          rw [List.mem_singleton.mp hj]
          exact hmem
      · obtain ⟨rfl, rfl⟩ := Prod.mk.inj h
        exact Or.inl ⟨rfl, rfl⟩
    · obtain ⟨rfl, rfl⟩ := Prod.mk.inj h
      exact Or.inl ⟨rfl, rfl⟩

/-- The loop over some entries of the map frees those that have the owner. -/
theorem freeEntries_eq (ok : ℕ → Bool) (owner : ℤ) (is : List ℕ) :
    ∀ m : Finset (ℕ × ℤ), is.Nodup →
      freeEntries ok owner is m =
        (m \ leasesOf owner (is.filter (fun i => decide ((i, owner) ∈ m) && ok i)),
          (is.filter (fun i => decide ((i, owner) ∈ m) && ok i)).length) := by
  induction is with
  | nil =>
    intro m _
    simp [freeEntries, leasesOf]
  | cons i is ih =>
    intro m hnodup
    obtain ⟨hnot, hnodup'⟩ := List.nodup_cons.mp hnodup
    unfold freeEntries
    split
    · rename_i hi
      have hfilter : is.filter (fun j => decide ((j, owner) ∈ m.erase (i, owner)) && ok j) =
          is.filter (fun j => decide ((j, owner) ∈ m) && ok j) := by
        refine List.filter_congr ?_
        intro j hj
        have hne : j ≠ i := by
          rintro rfl
          exact hnot hj
        simp [hne]
      rw [ih _ hnodup', hfilter, List.filter_cons_of_pos (by simp [hi.1, hi.2]), Prod.mk.injEq]
      refine ⟨?_, rfl⟩
      ext ⟨j, o⟩
      simp only [Finset.mem_sdiff, Finset.mem_erase, ne_eq, Prod.mk.injEq, mem_leasesOf,
        List.mem_cons]
      tauto
    · rename_i hi
      rw [ih m hnodup', List.filter_cons_of_neg]
      rw [Bool.and_eq_true, decide_eq_true_eq]
      exact hi

/-- The entries that are visited are freed if they have the owner. -/
theorem frees_freeEntries (ar : AddressRange) (ok : ℕ → Bool) (owner : ℤ) {is : List ℕ}
    (hnodup : is.Nodup) :
    Frees ar (allocatedToAttr { ar with allocated := (freeEntries ok owner is ar.allocated).1 })
      owner (is.filter (fun i => decide ((i, owner) ∈ ar.allocated) && ok i)) where
  moves := moves_allocatedToAttr ar _
  allocated := by
    show (freeEntries ok owner is ar.allocated).1 = _
    rw [freeEntries_eq ok owner is _ hnodup]
  nodup := hnodup.filter _
  held := by
    intro i hi
    have hmem := (List.mem_filter.mp hi).2
    rw [Bool.and_eq_true, decide_eq_true_eq] at hmem
    exact hmem.1

/-- **`free_addr_by_owner`.** -/
theorem freeAddrByOwner_cases {ot : ObjectType} {obid : ℤ} {freed : ℕ}
    (h : ar.freeAddrByOwner env ot obid = (ar', freed)) :
    ∃ is, freed = is.length ∧ Frees ar ar' (packOwner ot obid) is := by
  have hnodup : ar.usedIndexes.sort.Nodup := Finset.sort_nodup _ _
  unfold freeAddrByOwner at h
  obtain ⟨rfl, rfl⟩ := Prod.mk.inj h
  refine ⟨_, ?_, frees_freeEntries ar _ _ hnodup⟩
  rw [freeEntries_eq _ _ _ _ hnodup]

/-- The index at which `free_addr_by_range` begins. -/
def rangeStart (ar : AddressRange) (env : ArEnv) (mac : Text) : ℕ :=
  (((macToI env.junk mac).getD ⟨env.junk, env.junk⟩).lo - ar.mac.lo).toNat

/-- The entries that `free_addr_by_range` visits. -/
def visited (ar : AddressRange) (index rsize : ℕ) : List ℕ :=
  (ar.usedIndexes.sort.filter (index ≤ ·)).take rsize

theorem nodup_visited (ar : AddressRange) (index rsize : ℕ) : (ar.visited index rsize).Nodup :=
  ((Finset.sort_nodup _ _).filter _).sublist (List.take_sublist _ _)

/-- **`free_addr_by_range`.** -/
theorem freeAddrByRange_cases {ot : ObjectType} {obid : ℤ} {mac : Text} {rsize freed : ℕ}
    (h : ar.freeAddrByRange env ot obid mac rsize = (ar', freed)) :
    (freed = 0 ∧ ar' = ar) ∨
      ∃ is, freed = is.length ∧ Frees ar ar' (packOwner ot obid) is ∧
        is = (ar.visited (ar.rangeStart env mac) rsize).filter
          (fun i => decide ((i, packOwner ot obid) ∈ ar.allocated) && ar.freeIndex env i) := by
  unfold freeAddrByRange at h
  dsimp only at h
  split at h
  · obtain ⟨rfl, rfl⟩ := Prod.mk.inj h
    exact Or.inl ⟨rfl, rfl⟩
  · split at h
    · split at h
      · rename_i hused
        obtain ⟨rfl, rfl⟩ := Prod.mk.inj h
        refine Or.inr ⟨_, ?_, frees_freeEntries ar _ _ (nodup_visited ar _ rsize), rfl⟩
        exact congrArg Prod.snd (freeEntries_eq _ _ _ _ (nodup_visited ar _ rsize))
      · obtain ⟨rfl, rfl⟩ := Prod.mk.inj h
        exact Or.inl ⟨rfl, rfl⟩
    · obtain ⟨rfl, rfl⟩ := Prod.mk.inj h
      exact Or.inl ⟨rfl, rfl⟩

/-! ## Reservations -/

/-- **`reserve_addr`.** -/
theorem reserveAddr_cases {vid : ℤ} {rsize : ℕ} {rar : AddressRange} {r : Option AddressRange}
    (h : ar.reserveAddr env vid rsize rar = (ar', r)) :
    (r = none ∧ Keeps ar ar') ∨
      ∃ first, (ar.getAddr env rsize).2 = some first ∧
        r = some (ar'.reservedRange env rar first rsize) ∧ ar.shared = false ∧
        rsize ≤ ar.freeAddrs ∧ Block ar first rsize ∧
        Takes ar ar' (packOwner .net vid) (List.range' first rsize) := by
  unfold reserveAddr at h
  split at h
  · obtain ⟨rfl, rfl⟩ := Prod.mk.inj h
    exact Or.inl ⟨rfl, Keeps.refl ar⟩
  · rename_i hnot
    obtain ⟨hshared, hroom⟩ := not_or.mp hnot
    split at h
    · rename_i ar₁ hget
      obtain ⟨rfl, rfl⟩ := Prod.mk.inj h
      exact Or.inl ⟨rfl, (getAddr_cases hget).1⟩
    · rename_i ar₁ first hget
      obtain ⟨rfl, rfl⟩ := Prod.mk.inj h
      obtain ⟨hkeeps, hblock⟩ := getAddr_cases hget
      have hrange : (List.range rsize).map (fun j => (first + j) % 2 ^ 32) =
          List.range' first rsize := by
        rw [List.range'_eq_map_range]
        refine List.map_congr_left ?_
        intro j hj
        have hlt := List.mem_range.mp hj
        have := (hblock first rfl).le_word
        rw [Nat.mod_eq_of_lt (by omega)]
      refine Or.inr ⟨first, by rw [hget], rfl, by simpa using hshared, by omega, hblock first rfl,
        ?_⟩
      rw [hrange]
      exact takes_keeps hkeeps (takes_setAllocated _ _ ar₁)

/-- **`reserve_addr_by_index`.** -/
theorem reserveAddrByIndex_cases {vid : ℤ} {rsize : ℕ} {found : Option ℕ} {rar : AddressRange}
    {r : Option AddressRange} (h : ar.reserveAddrByIndex env vid rsize found rar = (ar', r)) :
    (r = none ∧ ar' = ar) ∨
      ∃ sindex, found = some sindex ∧ r = some (ar'.reservedRange env rar sindex rsize) ∧
        (∀ j ∈ List.range' sindex ((sindex + rsize) % 2 ^ 32 - sindex), j ∉ ar.usedIndexes) ∧
        Takes ar ar' (packOwner .net vid)
          (List.range' sindex ((sindex + rsize) % 2 ^ 32 - sindex)) := by
  unfold reserveAddrByIndex at h
  split at h
  · obtain ⟨rfl, rfl⟩ := Prod.mk.inj h
    exact Or.inl ⟨rfl, rfl⟩
  · rename_i sindex
    dsimp only at h
    split at h
    · obtain ⟨rfl, rfl⟩ := Prod.mk.inj h
      exact Or.inl ⟨rfl, rfl⟩
    · rename_i hany
      split at h
      · obtain ⟨rfl, rfl⟩ := Prod.mk.inj h
        refine Or.inr ⟨sindex, rfl, rfl, ?_, takes_setAllocated _ _ ar⟩
        simpa using hany
      · obtain ⟨rfl, rfl⟩ := Prod.mk.inj h
        exact Or.inl ⟨rfl, rfl⟩

end Allocation

end AddressRange
