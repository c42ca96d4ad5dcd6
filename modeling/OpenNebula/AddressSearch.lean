/-
# The search for free addresses (`src/vnm/AddressRangeInternal.cc`)

`get_single_addr` looks at the addresses one after the other from a cursor, as many times as there
are addresses, and `get_range_addr` looks for the first block of free addresses that is long enough.
Both count on 32 bits while the size of a range has 64.

The first part follows the rotating search: which indexes it looks at (`probes`), that it finds the
first free one of them, and exactly when an allocation finds an address whenever one is free
(`Searchable`).

The second part is about blocks.  `getRangeAddr` is the loop of `rangeLoop` with a result that tells
the end of the loop from the end of the fuel: it returns the least block (`getRangeAddr_some_iff`),
and returns at all (`getRangeAddr_returns_iff`) except for a range of `2 ^ 32 - 1` addresses with no
block whose last address is free, where the counter goes back to `0`.
-/
import OpenNebula.AddressBounds

namespace AddressRange

/-! ## The rotating search -/

/-- The indexes that `get_single_addr` looks at, in this order. -/
def probes (arSize : ℕ) : ℕ → ℕ → List ℕ
  | 0, _ => []
  | n + 1, next => next :: probes arSize n ((next + 1) % 2 ^ 32 % arSize)

/-- **The search stops at the first free index that it looks at.** -/
theorem singleLoop_eq_find (used : Finset ℕ) (arSize n next : ℕ) :
    (singleLoop used arSize n next).1 = (probes arSize n next).find? (fun i => decide (i ∉ used)) := by
  induction n generalizing next with
  | zero => rfl
  | succ n ih =>
    rw [singleLoop, probes]
    split
    · rename_i hmem
      rw [ih, List.find?_cons_of_neg (by simpa using hmem)]
    · rename_i hmem
      rw [List.find?_cons_of_pos (by simpa using hmem)]

/-- After the cursor come the indexes of the range, one after the other. -/
theorem mem_probes_of_lt {arSize : ℕ} (hpos : 0 < arSize) (hsize : arSize < 2 ^ 32) (n : ℕ) :
    ∀ {next i : ℕ}, next < arSize →
      (i ∈ probes arSize n next ↔ ∃ k < n, i = (next + k) % arSize) := by
  induction n with
  | zero =>
    intro next i _
    simp [probes]
  | succ n ih =>
    intro next i hnext
    have hstep : (next + 1) % 2 ^ 32 = next + 1 := Nat.mod_eq_of_lt (by omega)
    rw [probes, List.mem_cons, hstep, ih (Nat.mod_lt _ hpos)]
    constructor
    · rintro (rfl | ⟨k, hk, rfl⟩)
      · exact ⟨0, by omega, by rw [Nat.add_zero, Nat.mod_eq_of_lt hnext]⟩
      · exact ⟨k + 1, by omega, by rw [Nat.mod_add_mod, Nat.add_right_comm, Nat.add_assoc]⟩
    · rintro ⟨k, hk, rfl⟩
      cases k with
      | zero =>
        left
        rw [Nat.add_zero, Nat.mod_eq_of_lt hnext]
      | succ k =>
        right
        exact ⟨k, by omega, by rw [Nat.mod_add_mod, Nat.add_right_comm, Nat.add_assoc]⟩

/-- The index before the one that follows the cursor: the only one of the range that the search
looks at only if it is the cursor itself. -/
def skipped (arSize next : ℕ) : ℕ := ((next + 1) % 2 ^ 32 % arSize + (arSize - 1)) % arSize

/-- The turns from `start`, but the last one. -/
theorem exists_turn_iff {arSize start i : ℕ} (hstart : start < arSize) :
    (∃ k < arSize - 1, i = (start + k) % arSize) ↔
      i < arSize ∧ i ≠ (start + (arSize - 1)) % arSize := by
  have hturn : ∀ k < arSize,
      (start + k) % arSize = if start + k < arSize then start + k else start + k - arSize := by
    intro k hk
    split
    · rename_i hlt
      exact Nat.mod_eq_of_lt hlt
    · rename_i hge
      rw [Nat.mod_eq_sub_mod (by omega), Nat.mod_eq_of_lt (by omega)]
  constructor
  · rintro ⟨k, hk, rfl⟩
    refine ⟨Nat.mod_lt _ (by omega), ?_⟩
    rw [hturn k (by omega), hturn (arSize - 1) (by omega)]
    split <;> split <;> omega
  · rintro ⟨hi, hne⟩
    rw [hturn (arSize - 1) (by omega)] at hne
    -- the number of steps from `start` to `i`, around the end if `i` is before
    refine ⟨if start ≤ i then i - start else i + arSize - start, ?_, ?_⟩
    · split at hne <;> split <;> omega
    · split
      · rw [show start + (i - start) = i by omega, Nat.mod_eq_of_lt hi]
      · rw [show start + (i + arSize - start) = i + arSize by omega, Nat.add_mod_right,
          Nat.mod_eq_of_lt hi]

/-- **What the search looks at**: the cursor and the other indexes of the range but one. -/
theorem mem_probes_iff {arSize next i : ℕ} (hpos : 0 < arSize) (hsize : arSize < 2 ^ 32) :
    i ∈ probes arSize arSize next ↔ i = next ∨ (i < arSize ∧ i ≠ skipped arSize next) := by
  obtain ⟨n, rfl⟩ : ∃ n, arSize = n + 1 := ⟨arSize - 1, by omega⟩
  have hstart : (next + 1) % 2 ^ 32 % (n + 1) < n + 1 := Nat.mod_lt _ hpos
  rw [probes, List.mem_cons, mem_probes_of_lt hpos hsize n hstart]
  exact or_congr_right (exists_turn_iff hstart)

/-- The address that `get_single_addr` finds. -/
def freeProbe (ar : AddressRange) : Option ℕ :=
  (probes (ar.size % 2 ^ 32) (ar.size % 2 ^ 32) ar.next.toNat).find?
    (fun i => decide (i ∉ ar.usedIndexes))

section Allocation

variable {ar : AddressRange} (env : ArEnv) (ot : ObjectType) (obid : ℤ) (inherit : List AttrName)
  (nic : VectorAttribute)

/-- **An allocation in an internal range takes the address that the search finds**, unless as many
indexes as there are addresses are taken. -/
theorem allocateAddr_internal (hipam : ar.ipam = false) (hshared : ar.shared = false) :
    (∃ i nic', ar.usedAddr < ar.size ∧ ar.freeProbe = some i ∧
        (ar.allocateAddr env ot obid inherit nic).2 = some nic' ∧
        (ar.allocateAddr env ot obid inherit nic).1.allocated =
          insert (i, packOwner ot obid) ar.allocated) ∨
      ((ar.size ≤ ar.usedAddr ∨ ar.freeProbe = none) ∧
        (ar.allocateAddr env ot obid inherit nic).2 = none ∧
        (ar.allocateAddr env ot obid inherit nic).1.allocated = ar.allocated) := by
  rcases Nat.lt_or_ge ar.usedAddr ar.size with hroom | hfull
  · have hget : ar.getAddr env 1 =
        ({ ar with next := UInt32.ofNat (singleLoop ar.usedIndexes (ar.size % 2 ^ 32)
          (ar.size % 2 ^ 32) ar.next.toNat).2 }, ar.freeProbe) := by
      rw [getAddr, hipam, freeProbe, ← singleLoop_eq_find]
      rfl
    have hroom' : ¬(ar.shared = true ∨ ar.size ≤ ar.usedAddr) := by
      rw [hshared]
      simp [hroom]
    rw [allocateAddr, if_neg hroom', hget]
    cases hprobe : ar.freeProbe with
    | none => exact Or.inr ⟨Or.inr rfl, rfl, rfl⟩
    | some i => exact Or.inl ⟨i, _, hroom, rfl, rfl, rfl⟩
  · rw [allocateAddr, if_pos (Or.inr hfull)]
    exact Or.inr ⟨Or.inl hfull, rfl, rfl⟩

/-- An allocation finds a free address whenever there is one, takes it, and changes no lease
otherwise. -/
def AllocatesFree (ar : AddressRange) (env : ArEnv) (ot : ObjectType) (obid : ℤ)
    (inherit : List AttrName) (nic : VectorAttribute) : Prop :=
  ((ar.allocateAddr env ot obid inherit nic).2.isSome = true ↔
    ∃ i < ar.size, i ∉ ar.usedIndexes) ∧
  ((ar.allocateAddr env ot obid inherit nic).2.isSome = true →
    ∃ i < ar.size, i ∉ ar.usedIndexes ∧
      (ar.allocateAddr env ot obid inherit nic).1.allocated =
        insert (i, packOwner ot obid) ar.allocated) ∧
  ((ar.allocateAddr env ot obid inherit nic).2 = none →
    (ar.allocateAddr env ot obid inherit nic).1.allocated = ar.allocated)

end Allocation

/-- Every address is taken, or the counters of the search reach a free one: the size modulo `2 ^ 32`
is not `0`, fewer indexes than addresses are taken, and the cursor is a free address or, if it is
taken, an index below the size modulo `2 ^ 32`, other than the one the search skips, is free. -/
def Searchable (ar : AddressRange) : Prop :=
  (∀ i < ar.size, i ∈ ar.usedIndexes) ∨
    (0 < ar.size % 2 ^ 32 ∧ ar.usedAddr < ar.size ∧
      ((ar.next.toNat < ar.size ∧ ar.next.toNat ∉ ar.usedIndexes) ∨
        (ar.next.toNat ∈ ar.usedIndexes ∧ ∃ i < ar.size % 2 ^ 32,
          i ∉ ar.usedIndexes ∧ i ≠ skipped (ar.size % 2 ^ 32) ar.next.toNat)))

/-- If every address is taken, as many indexes as there are addresses are. -/
theorem size_le_usedAddr {ar : AddressRange} (h : ∀ i < ar.size, i ∈ ar.usedIndexes) :
    ar.size ≤ ar.usedAddr := by
  have hsub : Finset.range ar.size ⊆ ar.usedIndexes := by
    intro i hi
    exact h i (Finset.mem_range.mp hi)
  calc ar.size = (Finset.range ar.size).card := (Finset.card_range _).symm
    _ ≤ ar.usedAddr := Finset.card_le_card hsub

theorem freeProbe_some {ar : AddressRange} {i : ℕ} (h : ar.freeProbe = some i) :
    i ∉ ar.usedIndexes ∧ 0 < ar.size % 2 ^ 32 ∧
      (i = ar.next.toNat ∨
        (i < ar.size % 2 ^ 32 ∧ i ≠ skipped (ar.size % 2 ^ 32) ar.next.toNat)) := by
  have hfree : i ∉ ar.usedIndexes := by simpa using List.find?_some h
  have hmem := List.mem_of_find?_eq_some h
  have hpos : 0 < ar.size % 2 ^ 32 := by
    rcases Nat.eq_zero_or_pos (ar.size % 2 ^ 32) with hzero | hpos
    · rw [hzero] at hmem
      exact absurd hmem List.not_mem_nil
    · exact hpos
  exact ⟨hfree, hpos, (mem_probes_iff hpos (Nat.mod_lt _ (by norm_num))).mp hmem⟩

/-- A free cursor is what the search finds. -/
theorem freeProbe_cursor {ar : AddressRange} (hpos : 0 < ar.size % 2 ^ 32)
    (hfree : ar.next.toNat ∉ ar.usedIndexes) : ar.freeProbe = some ar.next.toNat := by
  obtain ⟨n, hn⟩ : ∃ n, ar.size % 2 ^ 32 = n + 1 := ⟨ar.size % 2 ^ 32 - 1, by omega⟩
  rw [freeProbe, hn, probes, List.find?_cons_of_pos (by simpa using hfree)]

theorem freeProbe_isSome {ar : AddressRange} {i : ℕ} (hpos : 0 < ar.size % 2 ^ 32)
    (hfree : i ∉ ar.usedIndexes) (hi : i < ar.size % 2 ^ 32)
    (hne : i ≠ skipped (ar.size % 2 ^ 32) ar.next.toNat) : ∃ j, ar.freeProbe = some j := by
  have hmem : i ∈ probes (ar.size % 2 ^ 32) (ar.size % 2 ^ 32) ar.next.toNat :=
    (mem_probes_iff hpos (Nat.mod_lt _ (by norm_num))).mpr (Or.inr ⟨hi, hne⟩)
  rw [← Option.isSome_iff_exists, freeProbe, List.find?_isSome]
  exact ⟨i, hmem, by simpa using hfree⟩

/-- Where the search can reach a free address, it finds one, and only then. -/
theorem searchable_iff {ar : AddressRange} (hsome : ∃ i < ar.size, i ∉ ar.usedIndexes) :
    ar.Searchable ↔
      ar.usedAddr < ar.size ∧ ∃ i < ar.size, ar.freeProbe = some i := by
  have hle : ar.size % 2 ^ 32 ≤ ar.size := Nat.mod_le _ _
  constructor
  · rintro (hall | ⟨hpos, hroom, ⟨hlt, hfree⟩ | ⟨htaken, i, hi, hfree, hne⟩⟩)
    · obtain ⟨i, hi, hfree⟩ := hsome
      exact absurd (hall i hi) hfree
    · exact ⟨hroom, _, hlt, freeProbe_cursor hpos hfree⟩
    · obtain ⟨j, hj⟩ := freeProbe_isSome hpos hfree hi hne
      refine ⟨hroom, j, ?_, hj⟩
      obtain ⟨hfree', -, rfl | ⟨hlt, -⟩⟩ := freeProbe_some hj
      · exact absurd htaken hfree'
      · omega
  · rintro ⟨hroom, i, hi, hprobe⟩
    obtain ⟨hfree, hpos, hcases⟩ := freeProbe_some hprobe
    refine Or.inr ⟨hpos, hroom, ?_⟩
    by_cases hcursor : ar.next.toNat ∈ ar.usedIndexes
    · rcases hcases with rfl | ⟨hlt, hne⟩
      · exact absurd hcursor hfree
      · exact Or.inr ⟨hcursor, i, hlt, hfree, hne⟩
    · -- the search stops at the cursor, so the index found is the cursor
      rw [freeProbe_cursor hpos hcursor, Option.some.injEq] at hprobe
      subst hprobe
      exact Or.inl ⟨hi, hfree⟩

/-- **Exactly when an allocation finds a free address.** -/
theorem allocatesFree_iff_searchable {ar : AddressRange} (env : ArEnv) (ot : ObjectType) (obid : ℤ)
    (inherit : List AttrName) (nic : VectorAttribute) (hipam : ar.ipam = false)
    (hshared : ar.shared = false) :
    ar.AllocatesFree env ot obid inherit nic ↔ ar.Searchable := by
  have hcases := allocateAddr_internal env ot obid inherit nic hipam hshared
  by_cases hsome : ∃ i < ar.size, i ∉ ar.usedIndexes
  · rw [searchable_iff hsome]
    constructor
    · rintro ⟨hiff, htakes, -⟩
      rcases hcases with ⟨i, nic', hroom, hprobe, hnic, halloc⟩ | ⟨-, hnone, -⟩
      · obtain ⟨j, hj, hfree, hinsert⟩ := htakes (by rw [hnic]; rfl)
        rw [halloc] at hinsert
        have hmem : (j, packOwner ot obid) ∈ insert (i, packOwner ot obid) ar.allocated := by
          rw [hinsert]
          exact Finset.mem_insert_self _ _
        -- no owner has `j`, so the pair that was added is the one of `i`
        rcases Finset.mem_insert.mp hmem with heq | hheld
        · rw [(Prod.mk.inj heq).1] at hj
          exact ⟨hroom, i, hj, hprobe⟩
        · exact absurd (mem_usedIndexes.mpr ⟨_, hheld⟩) hfree
      · rw [hnone] at hiff
        exact absurd (hiff.mpr hsome) (by simp)
    · rintro ⟨hroom, i, hi, hprobe⟩
      rcases hcases with ⟨j, nic', -, hprobe', hnic, halloc⟩ | ⟨hfull | hnone, -, -⟩
      · rw [hprobe, Option.some.injEq] at hprobe'
        subst hprobe'
        have hfree := (freeProbe_some hprobe).1
        refine ⟨iff_of_true (by rw [hnic]; rfl) hsome, fun _ => ⟨i, hi, hfree, halloc⟩, ?_⟩
        intro hnone
        rw [hnic] at hnone
        exact absurd hnone (by simp)
      · exact absurd hfull (by omega)
      · rw [hnone] at hprobe
        exact absurd hprobe (by simp)
  · have hall : ∀ i < ar.size, i ∈ ar.usedIndexes := by
      intro i hi
      by_contra hfree
      exact hsome ⟨i, hi, hfree⟩
    refine iff_of_true ?_ (Or.inl hall)
    have hfull := size_le_usedAddr hall
    rcases hcases with ⟨-, -, hroom, -⟩ | ⟨-, hnone, hkeep⟩
    · exact absurd hroom (by omega)
    · rw [AllocatesFree, hnone]
      exact ⟨iff_of_false (by simp) hsome, fun h => absurd h (by simp), fun _ => hkeep⟩

/-- A lease in a new range of eight addresses. -/
theorem allocatesFree_etherRange :
    (etherRange "8".toList).AllocatesFree plainEnv .vm 5 [] (fun _ => []) ↔
      (etherRange "8".toList).Searchable :=
  allocatesFree_iff_searchable plainEnv .vm 5 [] (fun _ => []) (by decide)
    (by decide)

/-- A new range of `2 ^ 32` addresses has no address to give. -/
theorem not_allocatesFree :
    ¬ ∀ (env : ArEnv) (vattr : VectorAttribute) (id : ℕ) (ar : AddressRange) (ot : ObjectType)
        (obid : ℤ) (inherit : List AttrName) (nic : VectorAttribute),
      (new id false).fromAttr env vattr = (ar, none) → ar.shared = false →
        ar.AllocatesFree env ot obid inherit nic := by
  intro h
  have hstart : ((new 0 false).fromAttr plainEnv (etherAttr "4294967296".toList)).2 = none := by
    decide
  have hfree := h plainEnv _ 0 (etherRange "4294967296".toList) .vm 5 [] (fun _ => [])
    (Prod.ext rfl hstart) (by decide)
  have hnone : ((etherRange "4294967296".toList).allocateAddr plainEnv .vm 5 []
      (fun _ => [])).2.isSome = false := by
    decide
  have hzero : 0 < (etherRange "4294967296".toList).size ∧
      0 ∉ (etherRange "4294967296".toList).usedIndexes := by
    decide
  rw [hfree.1.mpr ⟨0, hzero⟩] at hnone
  exact absurd hnone (by simp)

/-! ## The search for a block -/

/-- `AddressRangeInternal::get_range_addr` from an index, for a number of turns of its outer loop:
`none` if the loop does not end in these turns, `some none` for the error, or the index found. -/
def getRangeAddr (used : Finset ℕ) (arSize rsize : ℕ) : ℕ → ℕ → Option (Option ℕ)
  | 0, _ => none
  | n + 1, i =>
    if i < arSize then
      if i ∈ used then getRangeAddr used arSize rsize n ((i + 1) % 2 ^ 32)
      else
        match rangeInner used arSize rsize i with
        | (true, j) => some (some ((j + 2 ^ 32 - rsize) % 2 ^ 32))
        | (false, j) => getRangeAddr used arSize rsize n ((j + 1) % 2 ^ 32)
    else some none

/-- The loop of `get_addr` is this one. -/
theorem rangeLoop_eq_join (used : Finset ℕ) (arSize rsize n : ℕ) :
    ∀ i, rangeLoop used arSize rsize n i = (getRangeAddr used arSize rsize n i).join := by
  induction n with
  | zero => exact fun i => rfl
  | succ n ih =>
    intro i
    rw [rangeLoop, getRangeAddr]
    split
    · split
      · exact ih _
      · rcases rangeInner used arSize rsize i with ⟨ok, j⟩
        cases ok with
        | true => rfl
        | false => exact ih _
    · rfl

/-- The addresses of a block are in the range, and free. -/
def FreeBlock (used : Finset ℕ) (arSize rsize k : ℕ) : Prop :=
  k + rsize ≤ arSize ∧ ∀ j < rsize, k + j ∉ used

section Blocks

variable {used : Finset ℕ} {arSize rsize : ℕ}

/-- The inner loop ends without a block at an index that no block has. -/
theorem rangeInner_false (hsize : arSize < 2 ^ 32) (n : ℕ) :
    ∀ {i j : ℕ}, i ≤ arSize → rangeInner used arSize n i = (false, j) →
      i ≤ j ∧ j < i + n ∧ j ≤ arSize ∧ (j ∈ used ∨ j = arSize) ∧ ∀ x, i ≤ x → x < j → x ∉ used := by
  induction n with
  | zero =>
    intro i j _ h
    exact absurd h (by simp [rangeInner])
  | succ n ih =>
    intro i j hi h
    unfold rangeInner at h
    split at h
    · rename_i hstop
      have hj : i = j := (Prod.mk.inj h).2
      subst hj
      refine ⟨le_rfl, by omega, hi, ?_, fun x hx hlt => absurd hx (by omega)⟩
      rcases hstop with hused | hend
      · exact Or.inl hused
      · exact Or.inr (by omega)
    · rename_i hgo
      obtain ⟨hfree, hlt⟩ := not_or.mp hgo
      rw [Nat.mod_eq_of_lt (by omega)] at h
      obtain ⟨hle, hlt', hend, hstop, hall⟩ := ih (by omega) h
      refine ⟨by omega, by omega, hend, hstop, ?_⟩
      intro x hx hxj
      rcases Nat.eq_or_lt_of_le hx with rfl | hlt
      · exact hfree
      · exact hall x hlt hxj

/-- No block starts between where the inner loop starts and where it is stopped. -/
theorem not_freeBlock_of_stop {i j k : ℕ} (hlt : j < i + rsize) (hstop : j ∈ used ∨ j = arSize)
    (hik : i ≤ k) (hkj : k ≤ j) : ¬FreeBlock used arSize rsize k := by
  rintro ⟨hbound, hfree⟩
  rcases hstop with hused | rfl
  · apply hfree (j - k) (by omega)
    rwa [show k + (j - k) = j by omega]
  · omega

theorem freeBlock_of_inner (hsize : arSize < 2 ^ 32) {i j : ℕ} (hi : i < arSize)
    (h : rangeInner used arSize rsize i = (true, j)) :
    (j + 2 ^ 32 - rsize) % 2 ^ 32 = i ∧ FreeBlock used arSize rsize i := by
  obtain ⟨rfl, hall⟩ := rangeInner_true hsize rsize h
  refine ⟨by omega, ?_, fun k hk => (hall k hk).1⟩
  rcases Nat.eq_zero_or_pos rsize with rfl | hpos
  · omega
  · have := (hall (rsize - 1) (by omega)).2
    omega

/-- **What the search finds is the least block**, as long as no block starts before the index it
is at. -/
theorem getRangeAddr_sound (hsize : arSize < 2 ^ 32) (hpos : 1 ≤ rsize) (n : ℕ) :
    ∀ {i k : ℕ}, (∀ k' < i, ¬FreeBlock used arSize rsize k') →
      getRangeAddr used arSize rsize n i = some (some k) →
        IsLeast {k | FreeBlock used arSize rsize k} k := by
  induction n with
  | zero =>
    intro i k _ h
    exact absurd h (by simp [getRangeAddr])
  | succ n ih =>
    intro i k hbefore h
    unfold getRangeAddr at h
    split at h
    · rename_i hi
      split at h
      · rename_i hused
        refine ih ?_ h
        intro k' hk'
        rw [Nat.mod_eq_of_lt (by omega)] at hk'
        rcases Nat.lt_or_ge k' i with hlt | hge
        · exact hbefore k' hlt
        · obtain rfl : k' = i := by omega
          exact not_freeBlock_of_stop (by omega) (Or.inl hused) le_rfl le_rfl
      · split at h
        · rename_i j hinner
          obtain ⟨hstart, hblock⟩ := freeBlock_of_inner hsize hi hinner
          rw [Option.some.injEq, Option.some.injEq, hstart] at h
          subst h
          refine ⟨hblock, ?_⟩
          intro k' hk'
          by_contra hlt
          exact hbefore k' (by omega) hk'
        · rename_i j hinner
          obtain ⟨hle, hlt, hend, hstop, -⟩ := rangeInner_false hsize rsize hi.le hinner
          refine ih ?_ h
          intro k' hk'
          -- the counter may have gone back to `0`: then there is nothing before it
          have hk'' : k' ≤ j := Nat.lt_succ_iff.mp (lt_of_lt_of_le hk' (Nat.mod_le _ _))
          rcases Nat.lt_or_ge k' i with hlt' | hge
          · exact hbefore k' hlt'
          · exact not_freeBlock_of_stop hlt hstop hge hk''
    · exact absurd h (by simp)

/-- **A block is found**, in as many turns as there are indexes before it. -/
theorem getRangeAddr_complete (hsize : arSize < 2 ^ 32) (hpos : 1 ≤ rsize) {k : ℕ}
    (hblock : IsLeast {k | FreeBlock used arSize rsize k} k) (n : ℕ) :
    ∀ {i : ℕ}, i ≤ k → k < i + n →
      getRangeAddr used arSize rsize n i = some (some k) := by
  have hk : k + rsize ≤ arSize := hblock.1.1
  induction n with
  | zero =>
    intro i hik hn
    exact absurd hn (by omega)
  | succ n ih =>
    intro i hik hn
    rw [getRangeAddr, if_pos (by omega)]
    split
    · rename_i hused
      have hne : i ≠ k := by
        rintro rfl
        exact not_freeBlock_of_stop (by omega) (Or.inl hused) le_rfl le_rfl hblock.1
      rw [Nat.mod_eq_of_lt (by omega)]
      exact ih (by omega) (by omega)
    · split
      · rename_i j hinner
        obtain ⟨hstart, hi⟩ := freeBlock_of_inner hsize (by omega) hinner
        rw [hstart, le_antisymm hik (hblock.2 hi)]
      · rename_i j hinner
        obtain ⟨hle, hlt, hend, hstop, -⟩ := rangeInner_false hsize rsize (by omega) hinner
        have hjk : j < k := by
          by_contra hkj
          exact not_freeBlock_of_stop hlt hstop hik (by omega) hblock.1
        rw [Nat.mod_eq_of_lt (by omega)]
        exact ih (by omega) (by omega)

/-- The loop ends if the last index is taken, or the index after the end fits in the counter. -/
theorem getRangeAddr_ends (hsize : arSize < 2 ^ 32)
    (hlast : arSize < 2 ^ 32 - 1 ∨ arSize - 1 ∈ used) (n : ℕ) :
    ∀ {i : ℕ}, i ≤ arSize + 1 → arSize + 1 < i + n →
      (getRangeAddr used arSize rsize n i).isSome = true := by
  induction n with
  | zero =>
    intro i _ hn
    exact absurd hn (by omega)
  | succ n ih =>
    intro i hi hn
    rw [getRangeAddr]
    split
    · rename_i hlt
      split
      · rw [Nat.mod_eq_of_lt (by omega)]
        exact ih (by omega) (by omega)
      · split
        · rfl
        · rename_i j hinner
          obtain ⟨hle, -, hend, hstop, hfree⟩ := rangeInner_false hsize rsize hlt.le hinner
          have hj : j + 1 < 2 ^ 32 := by
            rcases hlast with hsmall | htaken
            · omega
            · by_contra hbig
              exact hfree (arSize - 1) (by omega) (by omega) htaken
          rw [Nat.mod_eq_of_lt hj]
          exact ih (by omega) (by omega)
    · rfl

/-- With `2 ^ 32 - 1` addresses, the last one free and no block, the counter always goes back. -/
theorem getRangeAddr_none (hsize : arSize = 2 ^ 32 - 1) (hlast : arSize - 1 ∉ used)
    (hblock : ∀ k, ¬FreeBlock used arSize rsize k) (n : ℕ) :
    ∀ {i : ℕ}, i < arSize → getRangeAddr used arSize rsize n i = none := by
  have hword : arSize < 2 ^ 32 := by omega
  have hnext : ∀ {j : ℕ}, j ≤ arSize → (j ∈ used ∨ j = arSize) → (j + 1) % 2 ^ 32 < arSize := by
    rintro j hle (hused | rfl)
    · have hne : j ≠ arSize - 1 := by
        rintro rfl
        exact hlast hused
      omega
    · omega
  induction n with
  | zero => exact fun _ => rfl
  | succ n ih =>
    intro i hi
    rw [getRangeAddr, if_pos hi]
    split
    · rename_i hused
      exact ih (hnext hi.le (Or.inl hused))
    · split
      · rename_i j hinner
        exact absurd (freeBlock_of_inner hword hi hinner).2 (hblock i)
      · rename_i j hinner
        obtain ⟨-, -, hend, hstop, -⟩ := rangeInner_false hword rsize hi.le hinner
        exact ih (hnext hend hstop)

/-- **The index returned is the least block.** -/
theorem getRangeAddr_some_iff (hsize : arSize < 2 ^ 32) (hpos : 1 ≤ rsize) (k : ℕ) :
    (∃ n, getRangeAddr used arSize rsize n 0 = some (some k)) ↔
      IsLeast {k | FreeBlock used arSize rsize k} k := by
  constructor
  · rintro ⟨n, hn⟩
    exact getRangeAddr_sound hsize hpos n (fun k' hk' => absurd hk' (by omega)) hn
  · intro hblock
    exact ⟨k + 1, getRangeAddr_complete hsize hpos hblock _ (Nat.zero_le k) (by omega)⟩

/-- **First fit.**  There is an index to return if and only if there is a block, and it is then the
least one. -/
theorem getRangeAddr_firstFit (hsize : arSize < 2 ^ 32) (hpos : 1 ≤ rsize) :
    ((∃ n k, getRangeAddr used arSize rsize n 0 = some (some k)) ↔
      ∃ k, FreeBlock used arSize rsize k) ∧
    ∀ n k, getRangeAddr used arSize rsize n 0 = some (some k) →
      IsLeast {k | FreeBlock used arSize rsize k} k := by
  refine ⟨⟨?_, ?_⟩, fun n k hn => (getRangeAddr_some_iff hsize hpos k).mp ⟨n, hn⟩⟩
  · rintro ⟨n, k, hn⟩
    exact ⟨k, ((getRangeAddr_some_iff hsize hpos k).mp ⟨n, hn⟩).1⟩
  · intro hsome
    have hleast : IsLeast {k | FreeBlock used arSize rsize k}
        (sInf {k | FreeBlock used arSize rsize k}) :=
      ⟨Nat.sInf_mem hsome, fun _ hk => Nat.sInf_le hk⟩
    obtain ⟨n, hn⟩ := (getRangeAddr_some_iff hsize hpos _).mpr hleast
    exact ⟨n, _, hn⟩

/-- **When the search returns at all.** -/
theorem getRangeAddr_returns_iff (hsize : arSize < 2 ^ 32) (hpos : 1 ≤ rsize) :
    (∃ n, (getRangeAddr used arSize rsize n 0).isSome = true) ↔
      arSize < 2 ^ 32 - 1 ∨ arSize - 1 ∈ used ∨ ∃ k, FreeBlock used arSize rsize k := by
  constructor
  · rintro ⟨n, hn⟩
    by_contra hnot
    obtain ⟨hbig, hnot⟩ := not_or.mp hnot
    obtain ⟨hlast, hblock⟩ := not_or.mp hnot
    rw [getRangeAddr_none (by omega) hlast (not_exists.mp hblock) n (by omega)] at hn
    exact absurd hn (by simp)
  · intro h
    by_cases hsome : ∃ k, FreeBlock used arSize rsize k
    · obtain ⟨n, k, hn⟩ := (getRangeAddr_firstFit hsize hpos).1.mpr hsome
      exact ⟨n, by rw [hn]; rfl⟩
    · rcases h with hsmall | hlast | hblock
      · exact ⟨arSize + 2, getRangeAddr_ends hsize (Or.inl hsmall) _ (by omega) (by omega)⟩
      · exact ⟨arSize + 2, getRangeAddr_ends hsize (Or.inr hlast) _ (by omega) (by omega)⟩
      · exact absurd hblock hsome

/-- The greatest range: with its last index in use the search for all of it ends, and with its first
index in use it does not. -/
theorem returns_greatestRange :
    (∃ n, (getRangeAddr {2 ^ 32 - 2} (2 ^ 32 - 1) (2 ^ 32 - 1) n 0).isSome = true) ∧
      ¬ ∃ n, (getRangeAddr {0} (2 ^ 32 - 1) (2 ^ 32 - 1) n 0).isSome = true := by
  constructor
  · exact (getRangeAddr_returns_iff (by norm_num) (by norm_num)).mpr (Or.inr (Or.inl (by decide)))
  · rw [getRangeAddr_returns_iff (by norm_num) (by norm_num)]
    rintro (hlt | hlast | ⟨k, hle, hfree⟩)
    · exact absurd hlt (by norm_num)
    · exact absurd hlast (by decide)
    · have hk : k = 0 := by omega
      exact hfree 0 (by norm_num) (by simp [hk])

/-- Two addresses in a range of six with two leases. -/
theorem firstFit_six :
    ((∃ n k, getRangeAddr {0, 3} 6 2 n 0 = some (some k)) ↔ ∃ k, FreeBlock {0, 3} 6 2 k) ∧
      (∀ n k, getRangeAddr {0, 3} 6 2 n 0 = some (some k) →
        IsLeast {k | FreeBlock {0, 3} 6 2 k} k) ∧
      getRangeAddr {0, 3} 6 2 6 0 = some (some 1) :=
  have h : ((∃ n k, getRangeAddr {0, 3} 6 2 n 0 = some (some k)) ↔
      ∃ k, FreeBlock {0, 3} 6 2 k) ∧ _ := getRangeAddr_firstFit (by norm_num) (by norm_num)
  ⟨h.1, h.2, by decide⟩

end Blocks

end AddressRange
