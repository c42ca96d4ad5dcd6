/-
# A reservation is released as a whole

A network reserves a block of addresses of its parent, and gives them back with `free_addr_by_range`
and the MAC address and the size of the range it was given.  `free_addr_by_range` does not look at
the interval of the block: it finds the first index by the MAC address and visits the next entries
of the map of leases.  These are the block as long as the addresses of the block are all still
leased, whatever else has been leased or released since; so what was reserved is what is freed, if
the MAC address of the first index does not wrap around.
-/
import OpenNebula.AddressBounds
import OpenNebula.AddressInverse

open TextNumber Transition

namespace AddressRange

/-! ## Reservations -/

/-- `reserve_addr`, or `reserve_addr_by_mac`, `reserve_addr_by_ip` and `reserve_addr_by_ip6`. -/
def reserve (ar : AddressRange) (env : ArEnv) (t : Option Target) (vid : ℤ) (rsize : ℕ)
    (rar : AddressRange) : AddressRange × Option AddressRange :=
  match t with
  | none => ar.reserveAddr env vid rsize rar
  | some t => ar.reserveAddrBy env t vid rsize rar

/-- The leases that an operation has added. -/
def taken (ar ar' : AddressRange) : Finset (ℕ × ℤ) := ar'.allocated \ ar.allocated

/-- A reservation of some addresses does not run into the end of a word: the loop over its indexes
does not wrap around, and neither does the MAC address of the first one, which is in the range. -/
def ReserveOk (ar : AddressRange) (env : ArEnv) (t : Option Target) (rsize : ℕ) : Prop :=
  0 < rsize →
    match t with
    | none => ∀ i ∈ (ar.getAddr env rsize).2, i < ar.size ∧ ar.mac.lo.toNat + i < 2 ^ 32
    | some t => ∀ i ∈ ar.startIndex env t, i + rsize < 2 ^ 32 ∧ ar.mac.lo.toNat + i < 2 ^ 32

/-- What a reservation has done. -/
structure Reserved (ar ar' : AddressRange) (vid : ℤ) (first rsize : ℕ) : Prop where
  moves : Moves ar ar'
  shared : ar.shared = false
  lt_size : 0 < rsize → first < ar.size
  lt_word : 0 < rsize → first < 2 ^ 32 ∧ ar.mac.lo.toNat + first < 2 ^ 32
  taken : taken ar ar' = leasesOf (packOwner .net vid) (List.range' first rsize)

theorem taken_of_takes {ar ar' : AddressRange} {owner : ℤ} {is : List ℕ}
    (h : Takes ar ar' owner is) (hfree : ∀ i ∈ is, i ∉ ar.usedIndexes) :
    taken ar ar' = leasesOf owner is := by
  ext ⟨i, o⟩
  rw [taken, h.allocated, Finset.mem_sdiff, Finset.mem_union, mem_leasesOf]
  constructor
  · rintro ⟨hold | hnew, hnot⟩
    · exact absurd hold hnot
    · exact hnew
  · rintro ⟨hi, ho⟩
    exact ⟨Or.inr ⟨hi, ho⟩, fun hmem => hfree i hi (mem_usedIndexes.mpr ⟨o, hmem⟩)⟩

/-- **What a reservation takes.** -/
theorem reserve_cases {ar ar' rar rar' : AddressRange} {env : ArEnv} {t : Option Target} {vid : ℤ}
    {rsize : ℕ} (hok : ReserveOk ar env t rsize)
    (h : ar.reserve env t vid rsize rar = (ar', some rar')) :
    ∃ first, rar' = ar'.reservedRange env rar first rsize ∧ Reserved ar ar' vid first rsize := by
  cases t with
  | none =>
    rcases reserveAddr_cases h with ⟨hnone, -⟩ | ⟨first, hfirst, hr, hsh, -, hblock, ht⟩
    · exact absurd hnone (by simp)
    refine ⟨first, Option.some.inj hr, ht.moves, hsh, ?_, ?_, taken_of_takes ht ?_⟩
    · exact fun hpos => (hok hpos first hfirst).1
    · exact fun hpos => ⟨hblock.lt_word, (hok hpos first hfirst).2⟩
    · intro i hi
      obtain ⟨hle, hlt⟩ := List.mem_range'_1.mp hi
      have := hblock.free (i - first) (by omega)
      rwa [show first + (i - first) = i by omega] at this
  | some t =>
    rcases reserveAddrBy_cases h with ⟨hnone, -⟩ | ⟨first, hstart, hr, hfree, ht⟩
    · exact absurd hnone (by simp)
    · obtain ⟨hsh, hfound⟩ := startIndex_some hstart
      have hblock : blockFrom first rsize = List.range' first rsize := by
        rcases Nat.eq_zero_or_pos rsize with rfl | hpos
        · exact blockFrom_of_lt hfound.lt_word
        · exact blockFrom_of_lt (hok hpos first hstart).1
      rw [hblock] at hfree ht
      exact ⟨first, Option.some.inj hr, ht.moves, hsh, fun _ => hfound.lt_size,
        fun hpos => ⟨hfound.lt_word, (hok hpos first hstart).2⟩, taken_of_takes ht hfree⟩

/-! ## The range of a reservation -/

/-- The attribute `SHARED` says what the range is. -/
def SharedText (ar : AddressRange) : Prop := ar.attr.boolValue .shared = some ar.shared

theorem boolValue_congr {va vb : VectorAttribute} {name : AttrName} (h : va name = vb name) :
    va.boolValue name = vb.boolValue name := by
  unfold VectorAttribute.boolValue
  rw [h]

theorem boolValue_replaceBool (va : VectorAttribute) (name : AttrName) (b : Bool) :
    (va.replaceBool name b).boolValue name = some b := by
  unfold VectorAttribute.boolValue VectorAttribute.replaceBool
  rw [VectorAttribute.replace_self]
  cases b <;> decide

theorem initType_shared {ar ar' : AddressRange} (h : initType ar = (ar', none)) :
    SharedText ar' := by
  unfold initType at h
  dsimp only at h
  split at h
  · exact absurd (Prod.mk.inj h).2 (by simp)
  · split at h
    · split at h
      · exact absurd (Prod.mk.inj h).2 (by simp)
      · split at h
        · exact absurd (Prod.mk.inj h).2 (by simp)
        · obtain ⟨rfl, -⟩ := Prod.mk.inj h
          exact boolValue_replaceBool _ _ _
    · obtain ⟨rfl, -⟩ := Prod.mk.inj h
      exact boolValue_replaceBool _ _ _

theorem SharedText.stage {ar ar' : AddressRange} {names : List AttrName} (h : SharedText ar)
    (hs : Stage ar ar' names) (hname : AttrName.shared ∉ names) : SharedText ar' := by
  unfold SharedText
  rw [boolValue_congr (hs.attr _ hname), hs.shared]
  exact h

theorem sharedText_fromAttr {env : ArEnv} {vattr : VectorAttribute} {ar₀ ar : AddressRange}
    (hid : ar₀.id < 2 ^ 32) (h : ar₀.fromAttr env vattr = (ar, none)) : SharedText ar := by
  unfold fromAttr at h
  obtain ⟨ar₅, h, h6⟩ := andThen_none h
  obtain ⟨ar₄, h, h5⟩ := andThen_none h
  obtain ⟨ar₃, h, h4⟩ := andThen_none h
  obtain ⟨ar₂, h, h3⟩ := andThen_none h
  obtain ⟨ar₁, h1, h2⟩ := andThen_none h
  have s1 := (initType_none h1).2.2
  have s2 := (initIpv4_none h2).1
  have s3 := (initIpv6_none h3).1
  have s4 := (initIpv6Static_none h4).1
  have s5 := (initMac_none h5).1
  have hid5 : ar₅.id < 2 ^ 32 := by
    rw [s5.id, s4.id, s3.id, s2.id, s1.id]
    exact hid
  have s6 := (initSize_none hid5 h6).1
  exact (((((initType_shared h1).stage s2 (by decide)).stage s3 (by decide)).stage s4
    (by decide)).stage s5 (by decide)).stage s6 (by decide)

theorem SharedText.step {inet : Inet6} {ar ar' : AddressRange} {e : ArEnv × ArOp}
    (h : SharedText ar) (hstep : ar.stepIn inet e = some ar') : SharedText ar' := by
  unfold SharedText
  rcases moves_of_step hstep with hm | ⟨vup, err, -, hup⟩
  · rw [boolValue_congr (hm.attr .shared (by decide)), hm.shared]
    exact h
  · obtain ⟨hu, hattr⟩ := updateAttributes_cases hup
    have hshared : ar'.shared = ar.shared := by rw [hu.base]
    have htext : ar'.attr .shared = ar.attr .shared := by
      rcases hattr with ⟨hsame, -⟩ | ⟨-, hnames, -, -⟩
      · rw [hsame]
      · rw [hnames .shared (by decide), (ar.updateAttr_spec vup).2.1]
    rw [boolValue_congr htext, hshared]
    exact h

/-- The MAC address and the size that `from_attr` was given are still there, also after an error, and
the range is not shared. -/
def KeepsAddress (mac size : Text) (r : AddressRange × Option String) : Prop :=
  r.1.attr .mac = mac ∧ r.1.attr .size = size ∧ (r.2 = none → r.1.shared = false)

theorem KeepsAddress.andThen {mac size : Text} {r : AddressRange × Option String}
    {f : AddressRange → AddressRange × Option String} (h : KeepsAddress mac size r)
    (hf : ∀ ar : AddressRange, ar.attr .mac = mac → ar.attr .size = size → ar.shared = false →
      KeepsAddress mac size (f ar)) : KeepsAddress mac size (andThen r f) := by
  obtain ⟨ar, e⟩ := r
  cases e with
  | some e => exact h
  | none => exact hf ar h.1 h.2.1 (h.2.2 rfl)

section Address

variable {ar : AddressRange} {env : ArEnv} {mac size : Text}

theorem keepsAddress_initType (hmac : ar.attr .mac = mac) (hsize : ar.attr .size = size)
    (hsh : ar.attr.boolValue .shared ≠ some true) : KeepsAddress mac size (initType ar) := by
  have hfalse : (ar.attr.boolValue .shared).getD false = false := by
    rcases hb : ar.attr.boolValue .shared with _ | b
    · rfl
    · cases b with
      | false => rfl
      | true => exact absurd hb hsh
  have hne : ∀ (b : Bool) {name : AttrName}, name ≠ .shared →
      ar.attr.replaceBool .shared b name = ar.attr name :=
    fun b _ hname => VectorAttribute.replace_of_ne _ _ hname
  unfold initType
  dsimp only
  split
  · exact ⟨hmac, hsize, fun h => absurd h (by simp)⟩
  · simp only [hfalse, Bool.false_eq_true, if_false]
    exact ⟨(hne false (by decide)).trans hmac, (hne false (by decide)).trans hsize, fun _ => rfl⟩

theorem keepsAddress_initIpv4 (hmac : ar.attr .mac = mac) (hsize : ar.attr .size = size)
    (hsh : ar.shared = false) : KeepsAddress mac size (initIpv4 ar) := by
  unfold initIpv4
  split
  · split
    · exact ⟨hmac, hsize, fun _ => hsh⟩
    · exact ⟨hmac, hsize, fun _ => hsh⟩
  · refine ⟨?_, ?_, fun _ => hsh⟩
    · dsimp only
      rw [remove_of_ne (by decide), hmac]
    · dsimp only
      rw [remove_of_ne (by decide), hsize]

theorem keepsAddress_initIpv6 (hmac : ar.attr .mac = mac) (hsize : ar.attr .size = size)
    (hsh : ar.shared = false) : KeepsAddress mac size (initIpv6 env ar) := by
  unfold initIpv6
  split
  · split
    · exact ⟨hmac, hsize, fun _ => hsh⟩
    · dsimp only
      split
      · exact ⟨hmac, hsize, fun _ => hsh⟩
      · exact ⟨hmac, hsize, fun _ => hsh⟩
  · refine ⟨?_, ?_, fun _ => hsh⟩
    · dsimp only
      rw [remove_of_ne (by decide), remove_of_ne (by decide), hmac]
    · dsimp only
      rw [remove_of_ne (by decide), remove_of_ne (by decide), hsize]

theorem keepsAddress_initIpv6Static (hset : size ≠ []) (hmac : ar.attr .mac = mac)
    (hsize : ar.attr .size = size) (hsh : ar.shared = false) :
    KeepsAddress mac size (initIpv6Static env ar) := by
  unfold initIpv6Static
  split
  · split
    · exact ⟨hmac, hsize, fun _ => hsh⟩
    · dsimp only
      split
      · exact ⟨hmac, hsize, fun _ => hsh⟩
      · rw [hsize, if_neg hset]
        exact ⟨hmac, hsize, fun _ => hsh⟩
  · refine ⟨?_, ?_, fun _ => hsh⟩
    · dsimp only
      rw [remove_of_ne (by decide), hmac]
    · dsimp only
      rw [remove_of_ne (by decide), hsize]

theorem keepsAddress_initMac (hset : mac ≠ []) (hmac : ar.attr .mac = mac)
    (hsize : ar.attr .size = size) (hsh : ar.shared = false) :
    KeepsAddress mac size (initMac env ar) := by
  have hnil : ar.attr .mac ≠ [] := by
    rw [hmac]
    exact hset
  unfold initMac
  rw [if_neg (by simp [hsh]), if_neg hnil]
  split
  · exact ⟨hmac, hsize, fun _ => hsh⟩
  · exact ⟨hmac, hsize, fun _ => hsh⟩

theorem keepsAddress_initSize (hmac : ar.attr .mac = mac) (hsize : ar.attr .size = size)
    (hsh : ar.shared = false) : KeepsAddress mac size (initSize ar) := by
  unfold initSize
  split
  · exact ⟨hmac, hsize, fun _ => hsh⟩
  · refine ⟨?_, ?_, fun _ => hsh⟩
    · dsimp only
      rw [foldl_remove _ _ (by decide), VectorAttribute.replaceNat,
        VectorAttribute.replace_of_ne _ _ (by decide)]
      exact hmac
    · dsimp only
      rw [foldl_remove _ _ (by decide), VectorAttribute.replaceNat,
        VectorAttribute.replace_of_ne _ _ (by decide)]
      exact hsize

end Address

/-- **The address and the size of a reservation** are those it was made with, whether or not
`from_vattr` accepts the range. -/
theorem reservedRange_attr {ar : AddressRange} (env : ArEnv) (rar : AddressRange) (first rsize : ℕ)
    (htext : SharedText ar) (hsh : ar.shared = false) :
    (ar.reservedRange env rar first rsize).attr .mac =
        macToS ⟨ar.mac.lo + UInt32.ofNat first, ar.mac.hi⟩ ∧
      (ar.reservedRange env rar first rsize).attr .size = Nat.toDigits 10 rsize := by
  have hmac : ar.reservedAttr env first rsize .mac =
      macToS ⟨ar.mac.lo + UInt32.ofNat first, ar.mac.hi⟩ := by
    unfold reservedAttr
    rw [remove_of_ne (by decide), VectorAttribute.replaceNat,
      VectorAttribute.replace_of_ne _ _ (by decide), (ar.setAddresses_spec env first false _).1,
      setMac_mac]
  have hsize : ar.reservedAttr env first rsize .size = Nat.toDigits 10 rsize := by
    unfold reservedAttr
    rw [remove_of_ne (by decide)]
    exact VectorAttribute.replace_self _ _ _
  have hshared : (ar.reservedAttr env first rsize).boolValue .shared ≠ some true := by
    have hsame : ar.reservedAttr env first rsize .shared = ar.attr .shared := by
      unfold reservedAttr
      rw [remove_of_ne (by decide), VectorAttribute.replaceNat,
        VectorAttribute.replace_of_ne _ _ (by decide),
        ar.setAddresses_of_ne env first false _ (by decide), setMac,
        VectorAttribute.replace_of_ne _ _ (by decide)]
    rw [boolValue_congr hsame, htext, hsh]
    simp
  have hkeeps : KeepsAddress (macToS ⟨ar.mac.lo + UInt32.ofNat first, ar.mac.hi⟩)
      (Nat.toDigits 10 rsize) (rar.fromAttr env (ar.reservedAttr env first rsize)) := by
    unfold fromAttr
    refine (((((keepsAddress_initType hmac hsize hshared).andThen ?_).andThen ?_).andThen ?_).andThen
      ?_).andThen ?_
    · exact fun _ => keepsAddress_initIpv4
    · exact fun _ => keepsAddress_initIpv6
    · exact fun _ => keepsAddress_initIpv6Static Nat.toDigits_ne_nil
    · exact fun _ => keepsAddress_initMac (macToS_ne_nil _)
    · exact fun _ => keepsAddress_initSize
  unfold reservedRange
  dsimp only
  rw [VectorAttribute.replaceNat, VectorAttribute.replace_of_ne _ _ (by decide),
    VectorAttribute.replace_of_ne _ _ (by decide)]
  exact ⟨hkeeps.1, hkeeps.2.1⟩

/-! ## What the other operations leave -/

/-- The index that `free_addr`, `free_addr_by_ip` and `free_addr_by_ip6` look at. -/
def freeAddrIndex (ar : AddressRange) (env : ArEnv) : Target → Option ℕ
  | .mac s =>
    let m := (macToI env.junk s).getD ⟨env.junk, env.junk⟩
    let index := (m.lo - ar.mac.lo).toNat
    if s = [] ∨ m.lo < ar.mac.lo ∨ ar.size ≤ index then none else some index
  | .ip s => ar.isValidIp s false
  | .ip6 s => ar.isValidIp6 env s false

theorem freeBy_eq (ar : AddressRange) (env : ArEnv) (t : Target) (ot : ObjectType) (obid : ℤ) :
    ar.freeBy env t ot obid = ar.freeFound env (ar.freeAddrIndex env t) ot obid := by
  cases t <;> rfl

/-- The leases that an operation would take out. -/
def Releasing (ar : AddressRange) (env : ArEnv) (op : ArOp) (l : ℕ × ℤ) : Prop :=
  match op with
  | .freeBy t ot obid => l.1 ∈ ar.freeAddrIndex env t ∧ l.2 = packOwner ot obid
  | .freeAddrByOwner ot obid => l.2 = packOwner ot obid
  | .freeAddrByRange ot obid mac rsize =>
    l.1 ∈ ar.visited (ar.rangeStart env mac) rsize.toNat ∧ l.2 = packOwner ot obid
  | _ => False

theorem Takes.mem {ar ar' : AddressRange} {owner : ℤ} {is : List ℕ} (h : Takes ar ar' owner is)
    {l : ℕ × ℤ} (hl : l ∈ ar.allocated) : l ∈ ar'.allocated := by
  rw [h.allocated]
  exact Finset.mem_union_left _ hl

theorem Frees.mem {ar ar' : AddressRange} {owner : ℤ} {is : List ℕ} (h : Frees ar ar' owner is)
    {l : ℕ × ℤ} (hl : l ∈ ar.allocated) (hnot : ¬ (l.1 ∈ is ∧ l.2 = owner)) : l ∈ ar'.allocated := by
  rw [h.allocated, Finset.mem_sdiff]
  exact ⟨hl, fun hmem => hnot (mem_leasesOf.mp hmem)⟩

/-- A lease that is not released stays. -/
theorem mem_of_step {ar ar' : AddressRange} {env : ArEnv} {op : ArOp} {l : ℕ × ℤ}
    (h : ar.step (env, op) = some ar') (hl : l ∈ ar.allocated) (hnot : ¬ ar.Releasing env op l) :
    l ∈ ar'.allocated := by
  cases op with
  | allocateAddr ot obid inherit nic =>
    obtain rfl := Option.some.inj h
    rcases allocateAddr_cases (Prod.mk.eta.symm) with ⟨-, hk⟩ | ⟨i, _, -, -, -, -, ht⟩
    · rw [hk.allocated]
      exact hl
    · exact ht.mem hl
  | allocateBy t ot obid inherit nic =>
    obtain rfl := Option.some.inj h
    rcases allocateBy_cases (Prod.mk.eta.symm) with ⟨-, heq⟩ | ⟨i, _, -, -, ht⟩
    · rw [heq]
      exact hl
    · exact ht.mem hl
  | holdBy t =>
    obtain rfl := Option.some.inj h
    rcases holdBy_cases (Prod.mk.eta.symm) with ⟨-, heq⟩ | ⟨i, -, -, ht⟩
    · rw [heq]
      exact hl
    · exact ht.mem hl
  | reserveAddr vid rsize rar =>
    obtain rfl := Option.some.inj h
    rcases reserveAddr_cases (Prod.mk.eta.symm) with ⟨-, hk⟩ | ⟨first, -, -, -, -, -, ht⟩
    · rw [hk.allocated]
      exact hl
    · exact ht.mem hl
  | reserveAddrBy t vid rsize rar =>
    obtain rfl := Option.some.inj h
    rcases reserveAddrBy_cases (Prod.mk.eta.symm) with ⟨-, heq⟩ | ⟨i, -, -, -, ht⟩
    · rw [heq]
      exact hl
    · exact ht.mem hl
  | freeBy t ot obid =>
    obtain rfl := Option.some.inj h
    dsimp only
    rw [freeBy_eq]
    rcases freeFound_cases (Prod.mk.eta.symm) with ⟨-, heq⟩ | ⟨i, hfound, -, hf⟩
    · rw [heq]
      exact hl
    · refine hf.mem hl ?_
      rintro ⟨hi, ho⟩
      rw [← List.mem_singleton.mp hi] at hfound
      exact hnot ⟨hfound, ho⟩
  | freeAddrByOwner ot obid =>
    obtain rfl := Option.some.inj h
    obtain ⟨is, -, hf⟩ := freeAddrByOwner_cases (Prod.mk.eta.symm)
    exact hf.mem hl (fun hmem => hnot hmem.2)
  | freeAddrByRange ot obid mac rsize =>
    obtain rfl := Option.some.inj h
    rcases freeAddrByRange_cases (Prod.mk.eta.symm) with ⟨-, heq⟩ | ⟨is, -, hf, his⟩
    · rw [heq]
      exact hl
    · refine hf.mem hl ?_
      rintro ⟨hi, ho⟩
      rw [his] at hi
      exact hnot ⟨(List.mem_filter.mp hi).1, ho⟩
  | updateAttributes vup =>
    obtain rfl := Option.some.inj h
    have hup := (updateAttributes_cases (Prod.mk.eta (p := ar.updateAttributes env vup)).symm).1
    rw [hup.base]
    exact hl

/-! ## The release of the block -/

/-- The first elements of an increasing list that has some consecutive numbers, and nothing below
them, are these numbers. -/
theorem take_eq_range' (n : ℕ) :
    ∀ {l : List ℕ} {first : ℕ}, l.Pairwise (· < ·) → (∀ x ∈ l, first ≤ x) →
      (∀ k < n, first + k ∈ l) → l.take n = List.range' first n := by
  induction n with
  | zero => exact fun _ _ _ => rfl
  | succ n ih =>
    intro l first hsorted hle hmem
    cases l with
    | nil => exact absurd (hmem 0 (Nat.succ_pos n)) (by simp)
    | cons x l =>
      obtain ⟨hx, hl⟩ := List.pairwise_cons.mp hsorted
      -- the first number is the head: everything after the head is above it
      have hhead : x = first := by
        have hxle := hle x List.mem_cons_self
        rcases List.mem_cons.mp (hmem 0 (Nat.succ_pos n)) with h0 | h0
        · omega
        · have := hx _ h0
          omega
      subst hhead
      rw [List.take_succ_cons, List.range'_succ, ih hl]
      · exact fun y hy => hx y hy
      · intro k hk
        have hk' := hmem (k + 1) (by omega)
        rw [show x + 1 + k = x + (k + 1) by omega]
        rcases List.mem_cons.mp hk' with heq | hin
        · omega
        · exact hin

theorem visited_eq {ar : AddressRange} {first n : ℕ}
    (h : ∀ k < n, first + k ∈ ar.usedIndexes) : ar.visited first n = List.range' first n := by
  unfold visited
  apply take_eq_range'
  · exact (Finset.sortedLT_sort ar.usedIndexes).pairwise.filter _
  · intro x hx
    simpa using (List.mem_filter.mp hx).2
  · intro k hk
    refine List.mem_filter.mpr ⟨(Finset.mem_sort _).mpr (h k hk), ?_⟩
    simp

section Release

variable {ar : AddressRange} {env : ArEnv} {ot : ObjectType} {obid : ℤ}

/-- Nothing is visited for a size of zero. -/
theorem freeAddrByRange_zero (mac : Text) :
    (ar.freeAddrByRange env ot obid mac 0).2 = 0 ∧
      (ar.freeAddrByRange env ot obid mac 0).1.allocated = ar.allocated := by
  rcases freeAddrByRange_cases (Prod.mk.eta (p := ar.freeAddrByRange env ot obid mac 0)).symm with
    ⟨hfreed, heq⟩ | ⟨is, hfreed, hf, his⟩
  · rw [hfreed, heq]
    exact ⟨rfl, rfl⟩
  · have hnil : is = [] := by
      rw [his, visited, List.take_zero]
      rfl
    rw [hfreed, hf.allocated, hnil]
    exact ⟨rfl, by simp [leasesOf]⟩

/-- **A block that is leased as a whole is freed as a whole.** -/
theorem freeAddrByRange_block {mac : Text} {first n : ℕ} {hi : UInt32} (hpos : 0 < n)
    (hsh : ar.shared = false)
    (hread : macToI env.junk mac = some ⟨ar.mac.lo + UInt32.ofNat first, hi⟩)
    (hfirst : first < 2 ^ 32) (hwrap : ar.mac.lo.toNat + first < 2 ^ 32) (hsize : first < ar.size)
    (hall : ∀ i ∈ List.range' first n, (i, packOwner ot obid) ∈ ar.allocated)
    (hdriver : ∀ i ∈ List.range' first n, ar.freeIndex env i = true) :
    (ar.freeAddrByRange env ot obid mac n).2 = n ∧
      (ar.freeAddrByRange env ot obid mac n).1.allocated =
        ar.allocated \ leasesOf (packOwner ot obid) (List.range' first n) := by
  have hused : ∀ k < n, first + k ∈ ar.usedIndexes := by
    intro k hk
    exact mem_usedIndexes.mpr ⟨_, hall (first + k) (List.mem_range'_1.mpr ⟨by omega, by omega⟩)⟩
  have hvisited := visited_eq hused
  have hfilter : (List.range' first n).filter
      (fun i => decide ((i, packOwner ot obid) ∈ ar.allocated) && ar.freeIndex env i) =
      List.range' first n := by
    rw [List.filter_eq_self]
    intro i hi
    rw [hdriver i hi, Bool.and_true, decide_eq_true_eq]
    exact hall i hi
  have hentries := freeEntries_eq (ar.freeIndex env) (packOwner ot obid) (List.range' first n)
    ar.allocated List.nodup_range'
  rw [hfilter, List.length_range'] at hentries
  have hnot : ¬ (ar.mac.lo + UInt32.ofNat first < ar.mac.lo) := by
    rw [word_lt _ hfirst]
    omega
  have hused0 : first ∈ ar.usedIndexes := by simpa using hused 0 hpos
  unfold freeAddrByRange
  simp only [hread, Option.getD_some, hsh, Bool.false_eq_true, if_false, word_sub _ hfirst]
  rw [if_pos ⟨UInt32.not_lt.mp hnot, hsize⟩, if_pos hused0]
  unfold visited at hvisited
  rw [hvisited, hentries]
  exact ⟨rfl, rfl⟩

end Release

/-! ## Round trip -/

/-- An operation that releases none of the given leases. -/
def Spares (inet : Inet6) (ls : Finset (ℕ × ℤ)) (ar : AddressRange) (e : ArEnv × ArOp) : Prop :=
  ∀ l ∈ ls, ¬ ar.Releasing { e.1 with inet := inet } e.2 l

/-- What later operations keep of a reservation. -/
structure Held (ls : Finset (ℕ × ℤ)) (mac : Mac) (first : ℕ) (ar : AddressRange) : Prop where
  held : ls ⊆ ar.allocated
  mac : ar.mac = mac
  shared : ar.shared = false
  lt_size : (∃ o, (first, o) ∈ ls) → first < ar.size

theorem Held.step {inet : Inet6} {ls : Finset (ℕ × ℤ)} {mac : Mac} {first : ℕ}
    {ar ar' : AddressRange} {e : ArEnv × ArOp} (h : Held ls mac first ar)
    (hok : Spares inet ls ar e) (hstep : ar.stepIn inet e = some ar') : Held ls mac first ar' := by
  have hheld : ls ⊆ ar'.allocated := fun l hl => mem_of_step hstep (h.held hl) (hok l hl)
  rcases moves_of_step hstep with hm | ⟨vup, err, -, hup⟩
  · refine ⟨hheld, hm.mac.trans h.mac, hm.shared.trans h.shared, ?_⟩
    rw [hm.size]
    exact h.lt_size
  · have hu := (updateAttributes_cases hup).1
    have hmac : ar'.mac = ar.mac := by rw [hu.base]
    have hsh : ar'.shared = ar.shared := by rw [hu.base]
    refine ⟨hheld, hmac.trans h.mac, hsh.trans h.shared, ?_⟩
    rintro ⟨o, ho⟩
    rcases hu.size with hsize | ⟨-, hin⟩
    · rw [hsize]
      exact h.lt_size ⟨o, ho⟩
    · exact hin first (mem_usedIndexes.mpr ⟨o, h.held ho⟩)

/-- **Round trip of a reservation.**  The parent is any range that has been reached, the reservation
meets `ReserveOk`, and later operations do not release its leases.  Then freeing the range of the
reservation takes out the leases that it has taken, all of them, and no other. -/
theorem releases_reservation {inet : Inet6} {env₀ env env' : ArEnv} {vattr : VectorAttribute}
    {id : ℕ} {ipam : Bool} {ar₀ ar ar₁ ar₂ rar rar' : AddressRange} {t : Option Target} {vid : ℤ}
    {rsize : UInt32} (hid : id < 2 ^ 32)
    (hstart : (new id ipam).fromAttr env₀ vattr = (ar₀, none))
    (hbefore : Run (stepIn inet) ar₀ ar) (hok : ReserveOk ar env t rsize.toNat)
    (hreserve : ar.reserve env t vid rsize.toNat rar = (ar₁, some rar'))
    (hafter : Reach (stepIn inet) (Spares inet (taken ar ar₁)) ar₁ ar₂)
    (hdriver : ∀ l ∈ taken ar ar₁, ar₂.freeIndex env' l.1 = true) :
    rar'.attr.unsignedValue .size 32 = some rsize.toNat ∧
      taken ar ar₁ ⊆ ar₂.allocated ∧
      (ar₂.freeAddrByRange env' .net vid (rar'.attr .mac) rsize.toNat).2 = (taken ar ar₁).card ∧
      (ar₂.freeAddrByRange env' .net vid (rar'.attr .mac) rsize.toNat).1.allocated =
        ar₂.allocated \ taken ar ar₁ := by
  have htext : SharedText ar :=
    hbefore.inv (sharedText_fromAttr hid hstart) (fun _ _ _ hs _ hstep => hs.step hstep)
  obtain ⟨first, hrar, hr⟩ := reserve_cases hok hreserve
  have htext₁ : SharedText ar₁ := by
    unfold SharedText
    rw [boolValue_congr (hr.moves.attr .shared (by decide)), hr.moves.shared]
    exact htext
  have hsh₁ : ar₁.shared = false := hr.moves.shared.trans hr.shared
  obtain ⟨hmac, hsize⟩ := reservedRange_attr env rar first rsize.toNat htext₁ hsh₁
  rw [← hrar] at hmac hsize
  have hread : rar'.attr.unsignedValue .size 32 = some rsize.toNat := by
    rw [← unsignedValue_toDigits rar'.attr .size rsize.toNat_lt]
    apply unsignedValue_congr
    rw [hsize, VectorAttribute.replaceNat, VectorAttribute.replace_self]
  have hinit : Held (taken ar ar₁) ar₁.mac first ar₁ := by
    refine ⟨Finset.sdiff_subset, rfl, hsh₁, ?_⟩
    rintro ⟨o, ho⟩
    rw [hr.taken, mem_leasesOf] at ho
    have := (List.mem_range'_1.mp ho.1).2
    rw [hr.moves.size]
    exact hr.lt_size (by omega)
  have hheld : Held (taken ar ar₁) ar₁.mac first ar₂ :=
    hafter.inv hinit (fun _ _ _ hs hsp hstep => hs.step hsp hstep)
  refine ⟨hread, hheld.held, ?_⟩
  rcases Nat.eq_zero_or_pos rsize.toNat with hzero | hpos
  · have hnone : taken ar ar₁ = ∅ := by
      rw [hr.taken, hzero]
      rfl
    rw [hzero, hnone, Finset.card_empty, Finset.sdiff_empty]
    exact freeAddrByRange_zero _
  · have hmem : ∀ i ∈ List.range' first rsize.toNat, (i, packOwner .net vid) ∈ taken ar ar₁ := by
      intro i hi
      rw [hr.taken]
      exact mem_leasesOf.mpr ⟨hi, rfl⟩
    have hfirst : first ∈ List.range' first rsize.toNat := List.mem_range'_1.mpr ⟨le_rfl, by omega⟩
    have hlo : ar₂.mac.lo = ar.mac.lo := by rw [hheld.mac, hr.moves.mac]
    have hcard : (taken ar ar₁).card = rsize.toNat := by
      rw [hr.taken, leasesOf, Finset.card_image_of_injective _ (fun a b hab => (Prod.mk.inj hab).1),
        List.toFinset_card_of_nodup List.nodup_range', List.length_range']
    have hword := hr.lt_word hpos
    have hmac₂ : macToI env'.junk (rar'.attr .mac) =
        some ⟨ar₂.mac.lo + UInt32.ofNat first, ar₁.mac.hi % 65536⟩ := by
      rw [hmac, macToI_macToS, hheld.mac]
    have hfree := freeAddrByRange_block hpos hheld.shared hmac₂ hword.1
      (by rw [hlo]; exact hword.2) (hheld.lt_size ⟨_, hmem first hfirst⟩)
      (fun i hi => hheld.held (hmem i hi)) (fun i hi => hdriver _ (hmem i hi))
    rw [hcard, hfree.1, hfree.2, hr.taken]
    exact ⟨rfl, rfl⟩

/-! ## Examples of reservations -/

instance (ar : AddressRange) (env : ArEnv) (t : Option Target) (rsize : ℕ) :
    Decidable (ReserveOk ar env t rsize) :=
  match t with
  | none => inferInstanceAs (Decidable (_ → ∀ i ∈ (ar.getAddr env rsize).2, _))
  | some t => inferInstanceAs (Decidable (_ → ∀ i ∈ ar.startIndex env t, _))

instance (ar : AddressRange) (env : ArEnv) (op : ArOp) (l : ℕ × ℤ) :
    Decidable (ar.Releasing env op l) :=
  match op with
  | .freeBy .. => inferInstanceAs (Decidable (_ ∧ _))
  | .freeAddrByOwner .. => inferInstanceAs (Decidable (_ = _))
  | .freeAddrByRange .. => inferInstanceAs (Decidable (_ ∧ _))
  | .allocateAddr .. | .allocateBy .. | .holdBy .. | .reserveAddr .. | .reserveAddrBy ..
  | .updateAttributes .. => inferInstanceAs (Decidable False)

instance (inet : Inet6) (ls : Finset (ℕ × ℤ)) (ar : AddressRange) (e : ArEnv × ArOp) :
    Decidable (Spares inet ls ar e) :=
  inferInstanceAs (Decidable (∀ l ∈ ls, _))

/-- A range with one lease. -/
def parentRange : AddressRange :=
  ((etherRange "8".toList).allocateAddr plainEnv .vm 5 [] (fun _ => [])).1

/-- The range after a reservation of two addresses. -/
def parentReserved : AddressRange × Option AddressRange :=
  parentRange.reserve plainEnv none 7 2 (new 1 false)

/-- A hold, another reservation of the same network, and the release of the first lease. -/
def laterRun : List (ArEnv × ArOp) :=
  [(plainEnv, .holdBy (.mac "02:00:c0:a8:00:06".toList)),
    (plainEnv, .reserveAddrBy (.mac "02:00:c0:a8:00:04".toList) 7 2 (new 2 false)),
    (plainEnv, .freeBy (.mac "02:00:c0:a8:00:01".toList) .vm 5)]

theorem releases_parentReserved :
    ∃ ar₂ rar', parentReserved = (parentReserved.1, some rar') ∧
      Reach (stepIn plainEnv.inet) (Spares plainEnv.inet (taken parentRange parentReserved.1))
        parentReserved.1 ar₂ ∧
      ar₂.usedIndexes = {1, 2, 3, 4, 5} ∧ (taken parentRange parentReserved.1).card = 2 ∧
      (ar₂.freeAddrByRange plainEnv .net 7 (rar'.attr .mac) 2).2 = 2 ∧
      (ar₂.freeAddrByRange plainEnv .net 7 (rar'.attr .mac) 2).1.allocated =
        ar₂.allocated \ taken parentRange parentReserved.1 := by
  have hstart : ((new 0 false).fromAttr plainEnv (etherAttr "8".toList)).2 = none := by
    decide
  have hbefore : Run (stepIn plainEnv.inet) (etherRange "8".toList) parentRange :=
    Reach.tail (e := (plainEnv, .allocateAddr .vm 5 [] (fun _ => []))) Reach.refl trivial rfl
  have hok : ReserveOk parentRange plainEnv none (2 : UInt32).toNat := by decide
  have hsome : parentReserved.2.isSome = true := by decide
  have hcard : (taken parentRange parentReserved.1).card = 2 := by decide
  obtain ⟨rar', hrar⟩ := Option.isSome_iff_exists.mp hsome
  have hreserve : parentReserved = (parentReserved.1, some rar') := Prod.ext rfl hrar
  have hrun : ((runChecked (stepIn plainEnv.inet)
      (Spares plainEnv.inet (taken parentRange parentReserved.1)) parentReserved.1 laterRun).map
        usedIndexes) = some {1, 2, 3, 4, 5} := by
    decide
  obtain ⟨ar₂, har₂, hused⟩ := Option.map_eq_some_iff.mp hrun
  have hafter := reach_of_runChecked _ har₂
  have hipam : ∀ l ∈ taken parentRange parentReserved.1, ar₂.freeIndex plainEnv l.1 = true :=
    fun _ _ => Bool.or_true _
  obtain ⟨-, -, hfreed, halloc⟩ := releases_reservation (by norm_num) (Prod.ext rfl hstart) hbefore
    hok hreserve hafter hipam
  rw [hcard] at hfreed
  exact ⟨ar₂, rar', hreserve, hafter, hused, hcard, hfreed, halloc⟩

/-- A range of four MAC addresses that wraps around after the second one. -/
def wrapAttr : VectorAttribute
  | .type => "ETHER".toList
  | .size => "4".toList
  | .mac => "02:00:ff:ff:ff:fe".toList
  | _ => []

/-- The first two addresses are reserved. -/
def wrapParent : AddressRange :=
  (((new 0 false).fromAttr plainEnv wrapAttr).1.reserveAddr plainEnv 6 2 (new 1 false)).1

/-- The other two are reserved. -/
def wrapReserved : AddressRange × Option AddressRange :=
  wrapParent.reserve plainEnv none 7 2 (new 1 false)

/-- The second of two reservations begins at an address that has wrapped around, and is not
released. -/
theorem wrapped_reservation_stays :
    ¬ ∀ (vattr : VectorAttribute) (ar₀ ar ar₁ ar₂ rar' : AddressRange) (t : Option Target) (vid : ℤ)
      (rsize : UInt32), (new 0 false).fromAttr plainEnv vattr = (ar₀, none) →
      Run (stepIn plainEnv.inet) ar₀ ar →
      ar.reserve plainEnv t vid rsize.toNat (new 1 false) = (ar₁, some rar') →
      Reach (stepIn plainEnv.inet) (Spares plainEnv.inet (taken ar ar₁)) ar₁ ar₂ →
      (ar₂.freeAddrByRange plainEnv .net vid (rar'.attr .mac) rsize.toNat).2 =
        (taken ar ar₁).card := by
  intro h
  have hstart : ((new 0 false).fromAttr plainEnv wrapAttr).2 = none := by decide
  have hbefore : Run (stepIn plainEnv.inet) ((new 0 false).fromAttr plainEnv wrapAttr).1 wrapParent :=
    Reach.tail (e := (plainEnv, .reserveAddr 6 2 (new 1 false))) Reach.refl trivial rfl
  have hmac : wrapReserved.2.map (fun r => r.attr .mac) = some "02:00:00:00:00:00".toList := by
    decide
  obtain ⟨rar', hrar, htext⟩ := Option.map_eq_some_iff.mp hmac
  have hfreed := h wrapAttr _ wrapParent wrapReserved.1 wrapReserved.1 rar' none 7 2
    (Prod.ext rfl hstart) hbefore (Prod.ext rfl hrar) Reach.refl
  have hnone : (wrapReserved.1.freeAddrByRange plainEnv .net 7 "02:00:00:00:00:00".toList
      (2 : UInt32).toNat).2 = 0 := by
    decide
  have hcard : (taken wrapParent wrapReserved.1).card = 2 := by decide
  rw [htext, hnone, hcard] at hfreed
  exact absurd hfreed (by decide)

end AddressRange
