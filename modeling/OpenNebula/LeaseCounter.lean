/-
# The counter of leases of a pool

`used_addr` is the number of addresses in use of all the ranges, as a 32-bit number.  The operations
add and subtract one for each call on a range that succeeds.  This is right as long as an address has
one owner at most: a second owner of a shared address is counted, although the address is in use
already, and the release of one of two owners is counted, although the address stays in use.  Besides,
a range that is removed takes its leases with it, and the counter is left as it is.  `CountOk`
excludes these.
-/
import OpenNebula.AddressRangePool
import OpenNebula.AddressBounds

open TextNumber Transition

namespace AddressRange

/-! ## One range -/

/-- An address has one owner at most. -/
def SingleOwner (ar : AddressRange) : Prop :=
  ∀ i o o', (i, o) ∈ ar.allocated → (i, o') ∈ ar.allocated → o = o'

section OneRange

variable {ar ar' : AddressRange} {owner : ℤ} {is : List ℕ}

theorem usedIndexes_takes (h : Takes ar ar' owner is) :
    ar'.usedIndexes = ar.usedIndexes ∪ is.toFinset := by
  ext i
  simp only [mem_usedIndexes, h.allocated, Finset.mem_union, mem_leasesOf, List.mem_toFinset]
  constructor
  · rintro ⟨o, ho | ⟨hi, -⟩⟩
    · exact Or.inl ⟨o, ho⟩
    · exact Or.inr hi
  · rintro (⟨o, ho⟩ | hi)
    · exact ⟨o, Or.inl ho⟩
    · exact ⟨owner, Or.inr ⟨hi, rfl⟩⟩

theorem usedAddr_takes (h : Takes ar ar' owner is) (hnodup : is.Nodup)
    (hfree : ∀ i ∈ is, i ∉ ar.usedIndexes) : ar'.usedAddr = ar.usedAddr + is.length := by
  have hdisj : Disjoint ar.usedIndexes is.toFinset := by
    rw [Finset.disjoint_right]
    intro i hi
    exact hfree i (List.mem_toFinset.mp hi)
  unfold usedAddr
  rw [usedIndexes_takes h, Finset.card_union_of_disjoint hdisj, List.toFinset_card_of_nodup hnodup]

theorem SingleOwner.takes (hs : SingleOwner ar) (h : Takes ar ar' owner is)
    (hfree : ∀ i ∈ is, i ∉ ar.usedIndexes) : SingleOwner ar' := by
  intro i o o' ho ho'
  rw [h.allocated, Finset.mem_union, mem_leasesOf] at ho ho'
  rcases ho with ho | ⟨hi, rfl⟩
  · rcases ho' with ho' | ⟨hi', -⟩
    · exact hs i o o' ho ho'
    · exact absurd (mem_usedIndexes.mpr ⟨o, ho⟩) (hfree i hi')
  · rcases ho' with ho' | ⟨-, rfl⟩
    · exact absurd (mem_usedIndexes.mpr ⟨o', ho'⟩) (hfree i hi)
    · rfl

/-- Without its only owner an address is free. -/
theorem usedAddr_frees (hs : SingleOwner ar) (h : Frees ar ar' owner is) :
    ar'.usedAddr + is.length = ar.usedAddr := by
  have hused : ar'.usedIndexes = ar.usedIndexes \ is.toFinset := by
    ext i
    simp only [mem_usedIndexes, h.allocated, Finset.mem_sdiff, mem_leasesOf, List.mem_toFinset]
    constructor
    · rintro ⟨o, ho, hnot⟩
      refine ⟨⟨o, ho⟩, fun hi => hnot ⟨hi, ?_⟩⟩
      exact hs i o owner ho (h.held i hi)
    · rintro ⟨⟨o, ho⟩, hnot⟩
      exact ⟨o, ho, fun hmem => hnot hmem.1⟩
  have hsub : is.toFinset ⊆ ar.usedIndexes := by
    intro i hi
    exact mem_usedIndexes.mpr ⟨owner, h.held i (List.mem_toFinset.mp hi)⟩
  have hlen : is.toFinset.card = is.length := List.toFinset_card_of_nodup h.nodup
  have hle := Finset.card_le_card hsub
  unfold usedAddr
  rw [hused, Finset.card_sdiff_of_subset hsub]
  omega

theorem SingleOwner.subset (hs : SingleOwner ar) (h : ar'.allocated ⊆ ar.allocated) :
    SingleOwner ar' :=
  fun i o o' ho ho' => hs i o o' (h ho) (h ho')

theorem SingleOwner.frees (hs : SingleOwner ar) (h : Frees ar ar' owner is) : SingleOwner ar' := by
  refine hs.subset ?_
  rw [h.allocated]
  exact Finset.sdiff_subset

end OneRange

/-- A call on a range has changed the number of its addresses in use by `d`. -/
def Changes (ar ar' : AddressRange) (d : ℤ) : Prop :=
  SingleOwner ar → (ar'.usedAddr : ℤ) = ar.usedAddr + d ∧ SingleOwner ar'

section Calls

variable {ar ar' : AddressRange} {env : ArEnv}

theorem Changes.refl (ar : AddressRange) : Changes ar ar 0 := fun h => ⟨(add_zero _).symm, h⟩

theorem changes_keeps (h : Keeps ar ar') : Changes ar ar' 0 := by
  refine fun hs => ⟨?_, hs.subset (by rw [h.allocated])⟩
  unfold usedAddr
  rw [h.usedIndexes, add_zero]

theorem changes_takes {owner : ℤ} {is : List ℕ} (h : Takes ar ar' owner is) (hnodup : is.Nodup)
    (hfree : ∀ i ∈ is, i ∉ ar.usedIndexes) : Changes ar ar' is.length := by
  refine fun hs => ⟨?_, hs.takes h hfree⟩
  rw [usedAddr_takes h hnodup hfree]
  push_cast
  rfl

/-- One address is taken that was free. -/
theorem changes_one {owner : ℤ} {i : ℕ} (h : Takes ar ar' owner [i]) (hfree : i ∉ ar.usedIndexes) :
    Changes ar ar' 1 := by
  refine changes_takes h (List.nodup_singleton i) ?_
  intro j hj
  rw [List.mem_singleton.mp hj]
  exact hfree

theorem changes_frees {owner : ℤ} {is : List ℕ} (h : Frees ar ar' owner is) :
    Changes ar ar' (-is.length) := by
  refine fun hs => ⟨?_, hs.frees h⟩
  have := usedAddr_frees hs h
  omega

theorem changes_allocateAddr {ot : ObjectType} {obid : ℤ} {inherit : List AttrName}
    {nic : VectorAttribute} {r : Option VectorAttribute}
    (h : ar.allocateAddr env ot obid inherit nic = (ar', r)) :
    Changes ar ar' (if r.isSome then 1 else 0) := by
  rcases allocateAddr_cases h with ⟨rfl, hk⟩ | ⟨i, nic', rfl, hblock, -, -, ht⟩
  · exact changes_keeps hk
  · exact changes_one ht (hblock.free 0 Nat.one_pos)

theorem changes_holdBy {t : Target} {r : Bool} (h : ar.holdBy env t = (ar', r)) :
    Changes ar ar' (if r then 1 else 0) := by
  rcases holdBy_cases h with ⟨rfl, rfl⟩ | ⟨i, hfound, rfl, ht⟩
  · exact Changes.refl ar'
  · exact changes_one ht (hfound.free rfl)

theorem changes_reserveAddr {vid : ℤ} {rsize : ℕ} {rar : AddressRange} {r : Option AddressRange}
    (h : ar.reserveAddr env vid rsize rar = (ar', r)) :
    Changes ar ar' (if r.isSome then (rsize : ℤ) else 0) := by
  rcases reserveAddr_cases h with ⟨rfl, hk⟩ | ⟨first, -, rfl, -, -, hblock, ht⟩
  · exact changes_keeps hk
  · have hchanges := changes_takes ht List.nodup_range' ?_
    · rwa [List.length_range'] at hchanges
    · intro i hi
      obtain ⟨hle, hlt⟩ := List.mem_range'_1.mp hi
      have hfree := hblock.free (i - first) (by omega)
      rwa [show first + (i - first) = i by omega] at hfree

/-- A reservation at an address, if its block does not wrap around. -/
theorem changes_reserveAddrBy {t : Target} {vid : ℤ} {rsize : ℕ} {rar : AddressRange}
    {r : Option AddressRange}
    (hok : ∀ i ∈ ar.startIndex env t, ar.allocateIndex env = true → i + rsize < 2 ^ 32)
    (h : ar.reserveAddrBy env t vid rsize rar = (ar', r)) :
    Changes ar ar' (if r.isSome then (rsize : ℤ) else 0) := by
  have halloc : r.isSome = true → ar.allocateIndex env = true := by
    rw [reserveAddrBy_eq] at h
    unfold reserveAddrByIndex at h
    split at h
    · obtain ⟨rfl, rfl⟩ := Prod.mk.inj h
      exact fun hr => absurd hr (by simp)
    · dsimp only at h
      split at h
      · obtain ⟨rfl, rfl⟩ := Prod.mk.inj h
        exact fun hr => absurd hr (by simp)
      · split at h
        · rename_i hindex
          exact fun _ => hindex
        · obtain ⟨rfl, rfl⟩ := Prod.mk.inj h
          exact fun hr => absurd hr (by simp)
  rcases reserveAddrBy_cases h with ⟨rfl, rfl⟩ | ⟨i, hstart, rfl, hfree, ht⟩
  · exact Changes.refl ar'
  · rw [blockFrom_of_lt (hok i hstart (halloc rfl))] at hfree ht
    have hchanges := changes_takes ht List.nodup_range' hfree
    rwa [List.length_range'] at hchanges

theorem changes_freeBy {t : Target} {ot : ObjectType} {obid : ℤ} {r : Bool}
    (h : ar.freeBy env t ot obid = (ar', r)) : Changes ar ar' (-(if r then 1 else 0)) := by
  rcases freeBy_cases h with ⟨rfl, rfl⟩ | ⟨i, rfl, hf⟩
  · exact Changes.refl ar'
  · exact changes_frees hf

theorem changes_freeAddrByOwner {ot : ObjectType} {obid : ℤ} {freed : ℕ}
    (h : ar.freeAddrByOwner env ot obid = (ar', freed)) : Changes ar ar' (-freed) := by
  obtain ⟨is, rfl, hf⟩ := freeAddrByOwner_cases h
  exact changes_frees hf

theorem changes_freeAddrByRange {ot : ObjectType} {obid : ℤ} {mac : Text} {rsize freed : ℕ}
    (h : ar.freeAddrByRange env ot obid mac rsize = (ar', freed)) : Changes ar ar' (-freed) := by
  rcases freeAddrByRange_cases h with ⟨rfl, rfl⟩ | ⟨is, rfl, hf, -⟩
  · exact Changes.refl ar'
  · exact changes_frees hf

/-- The index that the allocation of an address finds. -/
def allocIndex (ar : AddressRange) (env : ArEnv) : Target → Option ℕ
  | .mac s => if ar.shared then none else ar.isValidMac env s true
  | .ip s => ar.isValidIp s (!ar.shared)
  | .ip6 s => ar.isValidIp6 env s (!ar.shared)

/-- The range gives the address. -/
def accepts (ar : AddressRange) (env : ArEnv) (t : Target) : Bool :=
  (ar.allocIndex env t).isSome && ar.allocateIndex env

theorem allocateBy_eq (ar : AddressRange) (env : ArEnv) (t : Target) (ot : ObjectType) (obid : ℤ)
    (inherit : List AttrName) (nic : VectorAttribute) :
    ar.allocateBy env t ot obid inherit nic =
      ar.allocateFound env (ar.allocIndex env t) ot obid inherit nic := by
  cases t <;> rfl

theorem allocateBy_isSome (ar : AddressRange) (env : ArEnv) (t : Target) (ot : ObjectType) (obid : ℤ)
    (inherit : List AttrName) (nic : VectorAttribute) :
    (ar.allocateBy env t ot obid inherit nic).2.isSome = ar.accepts env t := by
  rw [allocateBy_eq]
  unfold allocateFound accepts
  cases ar.allocIndex env t with
  | none => rfl
  | some i =>
    cases ar.allocateIndex env with
    | true => simp
    | false => simp

/-- An address is taken, and it was free. -/
theorem changes_allocateBy {t : Target} {ot : ObjectType} {obid : ℤ} {inherit : List AttrName}
    {nic : VectorAttribute} {r : Option VectorAttribute}
    (hok : ar.accepts env t = true → ∀ i ∈ ar.allocIndex env t, i ∉ ar.usedIndexes)
    (h : ar.allocateBy env t ot obid inherit nic = (ar', r)) :
    Changes ar ar' (if r.isSome then 1 else 0) := by
  have haccepts := ar.allocateBy_isSome env t ot obid inherit nic
  rw [h] at haccepts
  rw [allocateBy_eq] at h
  rcases allocateFound_cases h with ⟨rfl, rfl⟩ | ⟨i, nic', hfound, rfl, ht⟩
  · exact Changes.refl ar'
  · exact changes_one ht (hok haccepts.symm i hfound)

end Calls

end AddressRange

namespace AddressRangePool

open AddressRange

/-! ## Loops -/

/-- The addresses in use of some ranges. -/
def total (ars : List AddressRange) : ℕ := (ars.map AddressRange.usedAddr).sum

theorem total_cons (ar : AddressRange) (ars : List AddressRange) :
    total (ar :: ars) = ar.usedAddr + total ars :=
  List.sum_cons

/-- A loop has changed the number of addresses in use by `d`. -/
def AllChange (ars ars' : List AddressRange) (d : ℤ) : Prop :=
  (∀ ar ∈ ars, SingleOwner ar) →
    (total ars' : ℤ) = total ars + d ∧ ∀ ar ∈ ars', SingleOwner ar

theorem AllChange.nil : AllChange [] [] 0 := fun h => ⟨rfl, h⟩

theorem AllChange.cons {ar ar' : AddressRange} {ars ars' : List AddressRange} {d e : ℤ}
    (h : Changes ar ar' d) (hs : AllChange ars ars' e) :
    AllChange (ar :: ars) (ar' :: ars') (d + e) := by
  intro hall
  obtain ⟨hsum, hsingle⟩ := h (hall ar List.mem_cons_self)
  obtain ⟨hsums, hsingles⟩ := hs (fun b hb => hall b (List.mem_cons_of_mem ar hb))
  refine ⟨?_, ?_⟩
  · rw [total_cons, total_cons]
    push_cast
    omega
  · intro b hb
    rcases List.mem_cons.mp hb with rfl | hb
    · exact hsingle
    · exact hsingles b hb

theorem AllChange.same (ars : List AddressRange) : AllChange ars ars 0 :=
  fun h => ⟨(add_zero _).symm, h⟩

/-- The first range for which the call succeeds changes by `d`, the ones before it keep their
number. -/
theorem allChange_firstOf {α : Type*} {f : AddressRange → AddressRange × Option α} {d : ℤ}
    (ars : List AddressRange) :
    (∀ pre ar post, ars = pre ++ ar :: post → (∀ b ∈ pre, (f b).2 = none) →
      Changes ar (f ar).1 (if (f ar).2.isSome then d else 0)) →
    AllChange ars (firstOf f ars).1 (if (firstOf f ars).2.isSome then d else 0) := by
  induction ars with
  | nil => exact fun _ => AllChange.nil
  | cons ar ars ih =>
    intro hf
    have hhead := hf [] ar ars rfl (by simp)
    rcases hfa : f ar with ⟨ar', _ | x⟩
    · rw [hfa] at hhead
      have htail := ih (by
        intro pre b post hars hpre
        refine hf (ar :: pre) b post (by rw [hars, List.cons_append]) ?_
        intro c hc
        rcases List.mem_cons.mp hc with rfl | hc
        · rw [hfa]
        · exact hpre c hc)
      have hcons := AllChange.cons hhead htail
      simp only [firstOf, hfa]
      simpa using hcons
    · rw [hfa] at hhead
      have hcons := AllChange.cons hhead (AllChange.same ars)
      simp only [firstOf, hfa]
      simpa using hcons

/-- The call on the range with an identifier. -/
theorem allChange_oneOf {α : Type*} (f : AddressRange → AddressRange × α) (g : α → ℤ) (arId : ℕ)
    (ars : List AddressRange) :
    (∀ ar, ars.find? (·.id == arId) = some ar → Changes ar (f ar).1 (g (f ar).2)) →
    AllChange ars (oneOf arId f ars).1 (((oneOf arId f ars).2.map g).getD 0) := by
  induction ars with
  | nil => exact fun _ => AllChange.nil
  | cons ar ars ih =>
    intro hf
    by_cases hid : ar.id = arId
    · have hhead := hf ar (by rw [List.find?_cons_of_pos (by simpa using hid)])
      have hcons := AllChange.cons hhead (AllChange.same ars)
      rw [add_zero] at hcons
      simp only [oneOf, hid, if_true]
      exact hcons
    · have htail := ih (by
        intro b hb
        exact hf b (by rw [List.find?_cons_of_neg (by simpa using hid)]; exact hb))
      have hcons := AllChange.cons (Changes.refl ar) htail
      rw [zero_add] at hcons
      simp only [oneOf, hid, if_false]
      exact hcons

/-- The call on every range. -/
theorem allChange_allOf {f : AddressRange → AddressRange × ℕ} {g : ℕ → ℤ} (hzero : g 0 = 0)
    (hadd : ∀ m n, g (m + n) = g m + g n) (hf : ∀ ar, Changes ar (f ar).1 (g (f ar).2))
    (ars : List AddressRange) : AllChange ars (allOf f ars).1 (g (allOf f ars).2) := by
  induction ars with
  | nil =>
    rw [allOf, hzero]
    exact AllChange.nil
  | cons ar ars ih =>
    rw [allOf, hadd]
    exact AllChange.cons (hf ar) ih

/-! ## The counter -/

/-- **The counter is right**, and no address has a second owner. -/
structure Counted (p : AddressRangePool) : Prop where
  used : p.usedAddr = UInt32.ofNat (total p.ars)
  single : ∀ ar ∈ p.ars, SingleOwner ar

section Counter

variable {p p' : AddressRangePool}

theorem Counted.take {α : Type*} {n : UInt32} {r : List AddressRange × Option α} (h : Counted p)
    (hr : AllChange p.ars r.1 (if r.2.isSome then (n.toNat : ℤ) else 0)) :
    Counted (p.take n r).1 := by
  obtain ⟨hsum, hsingle⟩ := hr h.single
  obtain ⟨ars, o⟩ := r
  cases o with
  | none =>
    refine ⟨?_, hsingle⟩
    have hsame : total ars = total p.ars := by
      simp only [Option.isSome_none, Bool.false_eq_true, if_false] at hsum
      omega
    show p.usedAddr = UInt32.ofNat (total ars)
    rw [hsame]
    exact h.used
  | some x =>
    refine ⟨?_, hsingle⟩
    have hadd : total ars = total p.ars + n.toNat := by
      simp only [Option.isSome_some, if_true] at hsum
      omega
    show p.usedAddr + n = UInt32.ofNat (total ars)
    rw [hadd, UInt32.ofNat_add, UInt32.ofNat_toNat, h.used]

theorem Counted.free {r : List AddressRange × ℕ} (h : Counted p)
    (hr : AllChange p.ars r.1 (-(r.2 : ℤ))) : Counted (p.free r).1 := by
  obtain ⟨hsum, hsingle⟩ := hr h.single
  refine ⟨?_, hsingle⟩
  have hsub : total p.ars = total r.1 + r.2 := by omega
  show p.usedAddr - UInt32.ofNat r.2 = UInt32.ofNat (total r.1)
  rw [h.used, hsub, UInt32.ofNat_add, add_sub_cancel_right]

theorem Counted.add {r : List AddressRange × ℕ} (h : Counted p)
    (hr : AllChange p.ars r.1 (r.2 : ℤ)) :
    Counted { p with ars := r.1, usedAddr := p.usedAddr + UInt32.ofNat r.2 } := by
  obtain ⟨hsum, hsingle⟩ := hr h.single
  refine ⟨?_, hsingle⟩
  have hadd : total r.1 = total p.ars + r.2 := by omega
  show p.usedAddr + UInt32.ofNat r.2 = UInt32.ofNat (total r.1)
  rw [h.used, hadd, UInt32.ofNat_add]

theorem changes_counted_holdBy (ar : AddressRange) (env : ArEnv) (t : Target) :
    Changes ar (counted (ar.holdBy env t)).1 ((counted (ar.holdBy env t)).2 : ℤ) := by
  have hholds := changes_holdBy (Prod.mk.eta (p := ar.holdBy env t)).symm
  cases hr : (ar.holdBy env t).2 with
  | true => simpa [counted, hr] using hholds
  | false => simpa [counted, hr] using hholds

theorem changes_counted_freeBy (ar : AddressRange) (env : ArEnv) (t : Target) (ot : ObjectType)
    (obid : ℤ) :
    Changes ar (counted (ar.freeBy env t ot obid)).1
      (-((counted (ar.freeBy env t ot obid)).2 : ℤ)) := by
  have hfrees := changes_freeBy (Prod.mk.eta (p := ar.freeBy env t ot obid)).symm
  cases hr : (ar.freeBy env t ot obid).2 with
  | true => simpa [counted, hr] using hfrees
  | false => simpa [counted, hr] using hfrees

/-- The addresses of a new range are free. -/
theorem total_insertAr {ar : AddressRange} (h : ar.usedAddr = 0) (ars : List AddressRange) :
    total (insertAr ar ars) = total ars ∧ ∀ b ∈ insertAr ar ars, b = ar ∨ b ∈ ars := by
  induction ars with
  | nil =>
    refine ⟨by rw [insertAr, total_cons, h, zero_add], ?_⟩
    intro b hb
    exact Or.inl (List.mem_singleton.mp hb)
  | cons c ars ih =>
    unfold insertAr
    split
    · refine ⟨by rw [total_cons, h, zero_add], ?_⟩
      intro b hb
      rcases List.mem_cons.mp hb with rfl | hb
      · exact Or.inl rfl
      · exact Or.inr hb
    · split
      · exact ⟨rfl, fun b hb => Or.inr hb⟩
      · refine ⟨by rw [total_cons, total_cons, ih.1], ?_⟩
        intro b hb
        rcases List.mem_cons.mp hb with rfl | hb
        · exact Or.inr List.mem_cons_self
        · rcases ih.2 b hb with rfl | hb'
          · exact Or.inl rfl
          · exact Or.inr (List.mem_cons_of_mem c hb')

theorem total_eraseP {arId : ℕ} {ar : AddressRange} (ars : List AddressRange) :
    ars.find? (·.id == arId) = some ar →
      total (ars.eraseP (·.id == arId)) + ar.usedAddr = total ars := by
  induction ars with
  | nil => exact fun h => absurd h (by simp)
  | cons b ars ih =>
    intro h
    by_cases hid : b.id = arId
    · rw [List.find?_cons_of_pos (by simpa using hid), Option.some.injEq] at h
      rw [List.eraseP_cons_of_pos (by simpa using hid), total_cons, h, add_comm]
    · rw [List.find?_cons_of_neg (by simpa using hid)] at h
      rw [List.eraseP_cons_of_neg (by simpa using hid), total_cons, total_cons, ← ih h]
      omega

/-- The ranges that `rm_ars` removes: up to the first one that the driver does not let go. -/
def removed (unregister : ℕ → Option String) (ars : List AddressRange) : List AddressRange :=
  ars.takeWhile (fun ar => !(ar.ipam && (unregister ar.id).isSome))

theorem removed_append_rmLoop (unregister : ℕ → Option String) (ars : List AddressRange) :
    removed unregister ars ++ (rmLoop unregister ars).1 = ars := by
  induction ars with
  | nil => rfl
  | cons ar ars ih =>
    unfold removed rmLoop
    split
    · rename_i hstop
      have hsome : (unregister ar.id).isSome = true := Option.isSome_iff_ne_none.mpr hstop.2
      rw [List.takeWhile_cons_of_neg (by simp [hstop.1, hsome])]
      rfl
    · rename_i hgo
      rw [← Option.isSome_iff_ne_none] at hgo
      rw [List.takeWhile_cons_of_pos (by simpa [Classical.or_iff_not_imp_left] using hgo),
        List.cons_append]
      exact congrArg (ar :: ·) ih

theorem total_append (ars bs : List AddressRange) : total (ars ++ bs) = total ars + total bs := by
  rw [total, List.map_append, List.sum_append]
  rfl

theorem total_eq_zero {ars : List AddressRange} (h : ∀ ar ∈ ars, ar.usedAddr = 0) :
    total ars = 0 := by
  rw [total, List.sum_eq_zero_iff]
  intro n hn
  obtain ⟨ar, har, rfl⟩ := List.mem_map.mp hn
  exact h ar har

/-! ## Runs -/

/-- The condition under which an operation keeps the counter right: a range is not removed with its
leases, a shared address is not given to a second owner, and the block of a reservation does not
wrap around. -/
def CountOk (p : AddressRangePool) (e : (ℕ → ArEnv) × PoolOp) : Prop :=
  match e.2 with
  | .rmAr arId force _ => force = true → ∀ ar ∈ p.find arId, ar.usedAddr = 0
  | .rmArs unregister => ∀ ar ∈ removed unregister p.ars, ar.usedAddr = 0
  | .allocateBy t _ _ _ _ =>
    ∀ ar ∈ p.ars.find? (fun ar => ar.accepts (e.1 ar.id) t),
      ∀ i ∈ ar.allocIndex (e.1 ar.id) t, i ∉ ar.usedIndexes
  | .reserveAddrByIn arId t _ rsize _ =>
    ∀ ar ∈ p.find arId, ∀ i ∈ ar.startIndex (e.1 ar.id) t,
      ar.allocateIndex (e.1 ar.id) = true → i + rsize.toNat < 2 ^ 32
  | _ => True

/-- The results of a call on one range, when the call may fail. -/
theorem allChange_oneOf_join {α : Type*} {f : AddressRange → AddressRange × Option α} {d : ℤ}
    {arId : ℕ} {ars : List AddressRange}
    (hf : ∀ ar, ars.find? (·.id == arId) = some ar →
      Changes ar (f ar).1 (if (f ar).2.isSome then d else 0)) :
    AllChange ars (oneOf arId f ars).1 (if (oneOf arId f ars).2.join.isSome then d else 0) := by
  have h := allChange_oneOf f (fun o => if o.isSome then d else 0) arId ars hf
  rcases hr : (oneOf arId f ars).2 with _ | (_ | x)
  · rw [hr] at h
    simpa using h
  · rw [hr] at h
    simpa using h
  · rw [hr] at h
    simpa using h

theorem allChange_oneOf_neg {f : AddressRange → AddressRange × ℕ} {arId : ℕ}
    {ars : List AddressRange} (hf : ∀ ar, Changes ar (f ar).1 (-((f ar).2 : ℤ))) :
    AllChange ars (oneOf arId f ars).1 (-(((oneOf arId f ars).2.getD 0 : ℕ) : ℤ)) := by
  have h := allChange_oneOf f (fun n => -(n : ℤ)) arId ars (fun ar _ => hf ar)
  rcases hr : (oneOf arId f ars).2 with _ | n
  · rw [hr] at h
    simpa using h
  · rw [hr] at h
    simpa using h

theorem changes_reserveIfFree (env : ℕ → ArEnv) (vid : ℤ) (rsize : UInt32) (rar ar : AddressRange) :
    Changes ar (reserveIfFree env vid rsize rar ar).1
      (if (reserveIfFree env vid rsize rar ar).2.isSome then (rsize.toNat : ℤ) else 0) := by
  unfold reserveIfFree
  split
  · exact changes_reserveAddr Prod.mk.eta.symm
  · exact Changes.refl ar

theorem Counted.fromVattr (h : Counted p) (env : ArEnv) (register : Except String VectorAttribute)
    (va : VectorAttribute) : Counted (p.fromVattr env register va).1 := by
  unfold AddressRangePool.fromVattr
  dsimp only
  split
  · exact h
  · rename_i ar hr
    -- whatever the driver has answered, the range comes from `from_attr`
    have hattr : ∃ va', (AddressRange.new p.nextAr.toNat
        (decide (va .ipamMad ≠ [] ∧ va .ipamMad ≠ "internal".toList))).fromAttr env va' =
          (ar, none) := by
      unfold vattrRange at hr
      split at hr
      · split at hr
        · exact absurd (Prod.mk.inj hr).2 (by simp)
        · exact ⟨_, hr⟩
      · exact ⟨va, hr⟩
    obtain ⟨va', hva'⟩ := hattr
    have hnone : ar.allocated = ∅ := (readable_fromAttr p.nextAr.toNat_lt hva').2.1
    have hzero : ar.usedAddr = 0 := by
      unfold AddressRange.usedAddr usedIndexes
      rw [hnone]
      rfl
    obtain ⟨htotal, hmem⟩ := total_insertAr hzero p.ars
    refine ⟨?_, ?_⟩
    · show p.usedAddr = UInt32.ofNat (total (insertAr ar p.ars))
      rw [htotal]
      exact h.used
    · intro b hb
      rcases hmem b hb with rfl | hb'
      · intro i o o' ho
        rw [hnone] at ho
        exact absurd ho (Finset.notMem_empty _)
      · exact h.single b hb'

/-- Ranges without leases are removed. -/
theorem Counted.remove {ars : List AddressRange} (h : Counted p) (htotal : total ars = total p.ars)
    (hsub : ∀ ar ∈ ars, ar ∈ p.ars) : Counted { p with ars := ars } := by
  refine ⟨?_, fun ar har => h.single ar (hsub ar har)⟩
  show p.usedAddr = UInt32.ofNat (total ars)
  rw [htotal]
  exact h.used

/-- **One step.** -/
theorem Counted.step {e : (ℕ → ArEnv) × PoolOp} (h : Counted p) (hok : CountOk p e)
    (hstep : p.step e = some p') : Counted p' := by
  obtain ⟨env, op⟩ := e
  cases op with
  | fromVattr arEnv register va =>
    obtain rfl := Option.some.inj hstep
    exact h.fromVattr arEnv register va
  | rmAr arId force unregister =>
    obtain rfl := Option.some.inj hstep
    show Counted (p.rmAr arId force unregister).1
    unfold rmAr
    split
    · exact h
    · rename_i ar hfind
      split
      · exact h
      · rename_i hleases
        split
        · exact h
        · have hzero : ar.usedAddr = 0 := by
            cases force with
            | true => exact hok rfl ar hfind
            | false =>
              by_contra hne
              exact hleases ⟨rfl, Nat.pos_of_ne_zero hne⟩
          have htotal := total_eraseP p.ars hfind
          rw [hzero, add_zero] at htotal
          exact h.remove htotal (fun b hb => List.mem_of_mem_eraseP hb)
  | rmArs unregister =>
    obtain rfl := Option.some.inj hstep
    have happend := removed_append_rmLoop unregister p.ars
    refine h.remove ?_ ?_
    · rw [← happend, total_append, total_eq_zero hok, zero_add]
      rw [happend]
    · intro ar har
      rw [← happend]
      exact List.mem_append_right _ har
  | allocateAddr ot obid inherit nic =>
    obtain rfl := Option.some.inj hstep
    exact h.take (allChange_firstOf p.ars
      (fun _ _ _ _ _ => changes_allocateAddr Prod.mk.eta.symm))
  | allocateBy t ot obid inherit nic =>
    obtain rfl := Option.some.inj hstep
    refine h.take (allChange_firstOf p.ars ?_)
    intro pre ar post hars hpre
    refine changes_allocateBy ?_ Prod.mk.eta.symm
    intro haccepts
    -- no range before this one accepts, so this is the one that the condition is about
    refine hok ar (List.find?_eq_some_iff_append.mpr ⟨haccepts, pre, post, hars, ?_⟩)
    intro b hb
    rw [← b.allocateBy_isSome (env b.id) t ot obid inherit nic, hpre b hb]
    rfl
  | holdByIn arId t =>
    obtain rfl := Option.some.inj hstep
    refine h.take (allChange_oneOf_join ?_)
    intro ar _
    have hholds := changes_holdBy (Prod.mk.eta (p := ar.holdBy (env ar.id) t)).symm
    cases hr : (ar.holdBy (env ar.id) t).2 with
    | true => simpa [success, hr] using hholds
    | false => simpa [success, hr] using hholds
  | holdBy t =>
    obtain rfl := Option.some.inj hstep
    exact h.add (allChange_allOf (g := fun n => (n : ℤ)) rfl (fun _ _ => by push_cast; rfl)
      (fun ar => changes_counted_holdBy ar (env ar.id) t) p.ars)
  | freeByIn arId t ot obid =>
    obtain rfl := Option.some.inj hstep
    exact h.free (allChange_oneOf_neg (fun ar => changes_counted_freeBy ar (env ar.id) t ot obid))
  | freeBy t ot obid =>
    obtain rfl := Option.some.inj hstep
    exact h.free (allChange_allOf (g := fun n => -(n : ℤ)) (by simp)
      (fun _ _ => by push_cast; ring) (fun ar => changes_counted_freeBy ar (env ar.id) t ot obid)
      p.ars)
  | freeAddrByOwner ot obid =>
    obtain rfl := Option.some.inj hstep
    exact h.free (allChange_allOf (g := fun n => -(n : ℤ)) (by simp)
      (fun _ _ => by push_cast; ring) (fun ar => changes_freeAddrByOwner Prod.mk.eta.symm) p.ars)
  | freeAddrByRange arId ot obid mac rsize =>
    obtain rfl := Option.some.inj hstep
    exact h.free (allChange_oneOf_neg (fun ar => changes_freeAddrByRange Prod.mk.eta.symm))
  | reserveAddr vid rsize rar =>
    obtain rfl := Option.some.inj hstep
    exact h.take (allChange_firstOf p.ars
      (fun _ ar _ _ _ => changes_reserveIfFree env vid rsize rar ar))
  | reserveAddrIn arId vid rsize rar =>
    obtain rfl := Option.some.inj hstep
    exact h.take (allChange_oneOf_join (fun ar _ => changes_reserveIfFree env vid rsize rar ar))
  | reserveAddrByIn arId t vid rsize rar =>
    obtain rfl := Option.some.inj hstep
    exact h.take (allChange_oneOf_join
      (fun ar hfind => changes_reserveAddrBy (hok ar hfind) Prod.mk.eta.symm))

end Counter

/-- **The counter of leases.**  In every run from the constructor whose operations meet `CountOk`,
`used_addr` is the number of addresses in use of all the ranges. -/
theorem used_eq_total_of_countOk {p : AddressRangePool} (hrun : Reach step CountOk empty p) :
    p.usedAddr = UInt32.ofNat (p.ars.map AddressRange.usedAddr).sum := by
  have hinit : Counted empty := ⟨rfl, fun ar har => absurd har (by simp [empty])⟩
  have hp : Counted p := hrun.inv hinit (fun _ _ _ hs hok hstep => hs.step hok hstep)
  exact hp.used

/-! ## Examples of runs -/

instance (p : AddressRangePool) (e : (ℕ → ArEnv) × PoolOp) : Decidable (CountOk p e) :=
  match e with
  | (_, .rmAr arId force _) =>
    inferInstanceAs (Decidable (force = true → ∀ ar ∈ p.find arId, ar.usedAddr = 0))
  | (_, .rmArs unregister) =>
    inferInstanceAs (Decidable (∀ ar ∈ removed unregister p.ars, ar.usedAddr = 0))
  | (env, .allocateBy t _ _ _ _) =>
    inferInstanceAs (Decidable (∀ ar ∈ p.ars.find? (fun ar => ar.accepts (env ar.id) t),
      ∀ i ∈ ar.allocIndex (env ar.id) t, i ∉ ar.usedIndexes))
  | (env, .reserveAddrByIn arId t _ rsize _) =>
    inferInstanceAs (Decidable (∀ ar ∈ p.find arId, ∀ i ∈ ar.startIndex (env ar.id) t,
      ar.allocateIndex (env ar.id) = true → i + rsize.toNat < 2 ^ 32))
  | (_, .fromVattr ..) | (_, .allocateAddr ..) | (_, .holdByIn ..) | (_, .holdBy ..)
  | (_, .freeByIn ..) | (_, .freeBy ..) | (_, .freeAddrByOwner ..) | (_, .freeAddrByRange ..)
  | (_, .reserveAddr ..) | (_, .reserveAddrIn ..) => inferInstanceAs (Decidable True)

/-- A shared range of IPv4 addresses. -/
def sharedAttr : VectorAttribute
  | .type => "IP4".toList
  | .shared => "YES".toList
  | .size => "4".toList
  | .ip => "10.0.0.1".toList
  | _ => []

/-- Two ranges, of which one is shared, leases in both, a hold, two reservations, a release and the
removal of the shared range. -/
def countedRun : List PoolOp :=
  [.fromVattr plainEnv (.error "") (etherAttr "8".toList), .fromVattr plainEnv (.error "") sharedAttr,
    .allocateAddr .vm 5 [] (fun _ => []), .allocateBy (.ip "10.0.0.2".toList) .vm 5 [] (fun _ => []),
    .holdBy (.mac "02:00:c0:a8:00:03".toList),
    .reserveAddrByIn 0 (.mac "02:00:c0:a8:00:04".toList) 7 2 (AddressRange.new 0 false),
    .reserveAddr 8 2 (AddressRange.new 0 false), .rmAr 1 false none,
    .freeByIn 1 (.ip "10.0.0.2".toList) .vm 5, .rmAr 1 true none]

theorem used_eq_total_countedRun :
    ∃ p, Reach step CountOk empty p ∧ p.ars.length = 1 ∧ p.usedAddr = 6 ∧
      p.usedAddr = UInt32.ofNat (p.ars.map AddressRange.usedAddr).sum := by
  have hrun : ((runChecked step CountOk empty (countedRun.map (fun op => (fun _ => plainEnv, op)))).map
      (fun p => (p.ars.length, p.usedAddr))) = some (1, 6) := by
    decide
  obtain ⟨p, hp, heq⟩ := Option.map_eq_some_iff.mp hrun
  obtain ⟨hlen, hused⟩ := Prod.mk.inj heq
  have hreach := reach_of_runChecked _ hp
  exact ⟨p, hreach, hlen, hused, used_eq_total_of_countOk hreach⟩

/-- A range is removed with its lease, and the counter stays. -/
theorem used_ne_total_after_rmAr :
    ¬ ∀ p, Run step empty p → p.usedAddr = UInt32.ofNat (p.ars.map AddressRange.usedAddr).sum := by
  intro h
  have hrun : ((runEvents step empty [(fun _ => plainEnv, .fromVattr plainEnv (.error "")
      (etherAttr "8".toList)), (fun _ => plainEnv, .allocateAddr .vm 5 [] (fun _ => [])),
      (fun _ => plainEnv, .rmAr 0 true none)]).map
        (fun p => (p.usedAddr, UInt32.ofNat (p.ars.map AddressRange.usedAddr).sum))) =
      some (1, 0) := by
    decide
  obtain ⟨p, hp, heq⟩ := Option.map_eq_some_iff.mp hrun
  obtain ⟨hused, htotal⟩ := Prod.mk.inj heq
  have hcount := h p (reach_of_runEvents (P := fun _ => True) _ (fun _ _ => trivial) hp)
  rw [hused, htotal] at hcount
  exact absurd hcount (by decide)

end AddressRangePool
