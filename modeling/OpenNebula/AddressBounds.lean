/-
# The leases of an internal range stay inside it

The indexes in use are below the size of the range, and so the range that is written to the
database can be loaded again.  Two operations do not check the bound themselves: a single address is
taken from the cursor `next`, which an update of the size may leave outside, and a reservation that
begins at an address of the range may run past its end.  `BoundOk` excludes these; every other
operation keeps the bound.
-/
import OpenNebula.AddressRuns
import OpenNebula.AddressText

open TextNumber Transition

namespace AddressRange

/-! ## The text of the leases -/

theorem getSigned_toDigits {n width : ℕ} (h : n < 2 ^ (width - 1)) {rest : Text}
    (hrest : Stops rest) :
    getSigned 10 width (Nat.toDigits 10 n ++ rest) = ⟨true, (n : ℤ), rest⟩ := by
  have hval : valueOf 10 (Nat.toDigits 10 n) = n := valueOf_toDigits (by norm_num) (by norm_num) n
  rw [getSigned_digits Nat.toDigits_ne_nil (isDigitOf_toDigits (by norm_num) (by norm_num) n)
    (hrest.head 10) (by rw [hval]; exact h), hval]

/-- The numbers of a lease fit in the types they are read with. -/
def Fits (l : ℕ × ℤ) : Prop := l.1 < 2 ^ 32 ∧ 0 ≤ l.2 ∧ l.2 < 2 ^ 63

theorem stops_leasesText (ls : List (ℕ × ℤ)) : Stops (leasesText ls) := by
  cases ls with
  | nil => exact Or.inl rfl
  | cons l ls => exact Or.inr ⟨_, rfl⟩

theorem length_leasesText (ls : List (ℕ × ℤ)) : ls.length ≤ (leasesText ls).length := by
  induction ls with
  | nil => exact Nat.zero_le _
  | cons l ls ih =>
    rw [leasesText, List.flatMap_cons, List.length_append, List.length_cons]
    have hone : 1 ≤ ([' '] ++ Nat.toDigits 10 l.1 ++ [' '] ++ ownerText l.2).length := by simp
    have hrest : (leasesText ls).length = (ls.flatMap fun l =>
      [' '] ++ Nat.toDigits 10 l.1 ++ [' '] ++ ownerText l.2).length := rfl
    omega

/-- One lease is read. -/
theorem readLeases_cons {l : ℕ × ℤ} (h : Fits l) (ls : List (ℕ × ℤ)) (n : ℕ)
    (m : Finset (ℕ × ℤ)) :
    readLeases (n + 1) (leasesText (l :: ls)) m = readLeases n (leasesText ls) (insert l m) := by
  obtain ⟨i, o⟩ := l
  obtain ⟨hi, hpos, ho⟩ := h
  obtain ⟨k, rfl⟩ := Int.eq_ofNat_of_zero_le hpos
  have howner : ownerText (k : ℤ) = Nat.toDigits 10 k := by
    rw [ownerText, if_neg (by omega), Int.natAbs_natCast]
  have htext : leasesText ((i, (k : ℤ)) :: ls) =
      ' ' :: (Nat.toDigits 10 i ++ ' ' :: (Nat.toDigits 10 k ++ leasesText ls)) := by
    simp [leasesText, howner]
  -- the spaces that the loop skips are those that the extraction would skip
  have htwice : ∀ s : Text, skipWs (skipWs s) = skipWs s :=
    fun s => List.dropWhile_idempotent isSpace s
  have hskip : ∀ (width : ℕ) (s : Text),
      getUnsigned 10 width (skipWs s) = getUnsigned 10 width s := by
    intro width s
    unfold getUnsigned
    rw [htwice]
  have hskip' : ∀ (width : ℕ) (s : Text),
      getSigned 10 width (skipWs s) = getSigned 10 width s := by
    intro width s
    unfold getSigned
    rw [htwice]
  have hindex : getUnsigned 10 32 (' ' :: (Nat.toDigits 10 i ++
      ' ' :: (Nat.toDigits 10 k ++ leasesText ls))) =
      ⟨true, i, ' ' :: (Nat.toDigits 10 k ++ leasesText ls)⟩ :=
    getUnsigned_toDigits hi (Or.inr ⟨_, rfl⟩)
  have hk : k < 2 ^ 63 := by
    have ho' : (k : ℤ) < 2 ^ 63 := ho
    omega
  have hown : getSigned 10 64 (' ' :: (Nat.toDigits 10 k ++ leasesText ls)) =
      ⟨true, (k : ℤ), leasesText ls⟩ :=
    getSigned_toDigits hk (stops_leasesText ls)
  rw [htext, readLeases]
  simp only [hskip, hskip', hindex, hown, if_true]

/-- **The text of the leases is read back.** -/
theorem readLeases_leasesText (ls : List (ℕ × ℤ)) :
    ∀ (n : ℕ) (m : Finset (ℕ × ℤ)), (∀ l ∈ ls, Fits l) → ls.length ≤ n →
      readLeases n (leasesText ls) m = (m ∪ ls.toFinset, []) := by
  induction ls with
  | nil =>
    intro n m _ _
    have hnil : m ∪ ([] : List (ℕ × ℤ)).toFinset = m := by simp
    rw [hnil]
    cases n with
    | zero => rfl
    | succ n => rfl
  | cons l ls ih =>
    intro n m hfits hn
    cases n with
    | zero => exact absurd hn (by simp)
    | succ n =>
      rw [readLeases_cons (hfits l List.mem_cons_self),
        ih n _ (fun l' hl' => hfits l' (List.mem_cons_of_mem l hl')) (by simpa using hn)]
      rw [List.toFinset_cons, Finset.insert_union, Finset.union_insert]

theorem toFinset_leases (ar : AddressRange) : ar.leases.toFinset = ar.allocated := by
  ext l
  simp [leases]

/-- The leases fit in the text, and lie inside the range. -/
structure InBounds (ar : AddressRange) : Prop where
  lt_size : ∀ l ∈ ar.allocated, l.1 < ar.size
  fits : ∀ l ∈ ar.allocated, Fits l

theorem InBounds.usedAddr_le {ar : AddressRange} (h : InBounds ar) : ar.usedAddr ≤ ar.size := by
  have hsub : ar.usedIndexes ⊆ Finset.range ar.size := by
    intro i hi
    obtain ⟨o, ho⟩ := mem_usedIndexes.mp hi
    exact Finset.mem_range.mpr (h.lt_size _ ho)
  calc ar.usedAddr ≤ (Finset.range ar.size).card := Finset.card_le_card hsub
    _ = ar.size := Finset.card_range _

/-- `attr_to_allocated` on what `allocated_to_attr` writes. -/
theorem attrToAllocated_leasesText {ar : AddressRange} (h : InBounds ar) (ar₀ : AddressRange)
    (hsize : ar₀.size = ar.size) (hnone : ar₀.allocated = ∅) :
    ar₀.attrToAllocated (leasesText ar.leases) = ({ ar₀ with allocated := ar.allocated }, true) := by
  have hfits : ∀ l ∈ ar.leases, Fits l := by
    intro l hl
    refine h.fits l ?_
    rw [← toFinset_leases]
    exact List.mem_toFinset.mpr hl
  have hread := readLeases_leasesText ar.leases (leasesText ar.leases).length ∅ hfits
    (length_leasesText _)
  rw [Finset.empty_union, toFinset_leases] at hread
  unfold attrToAllocated
  split
  · rename_i hnil
    rw [hnil] at hread
    rw [← (Prod.mk.inj hread).1]
  · rw [hnone, hread]
    have hle : usedAddr { ar₀ with allocated := ar.allocated } ≤ ar₀.size := by
      rw [hsize]
      exact h.usedAddr_le
    simp only [List.isEmpty_nil, Bool.true_and, hle, decide_true]

/-! ## Ranges that can be loaded -/

/-- The attributes of a range can be read, and give its type and its size. -/
structure Readable (inet : Inet6) (va : VectorAttribute) (t : AddressType) (n : ℕ) : Prop where
  arId : (va.unsignedValue .arId 32).isSome = true
  size : va.unsignedValue .size 64 = some n
  type : AddressType.ofText (va .type) = t
  known : t ≠ .none
  mac : ∀ junk, (macToI junk (va .mac)).isSome = true
  ip : t.isIpv4 = true → (ipToI (va .ip)).isSome = true
  ip6 : t.isIpv6Static = true → (inet.ip6ToI (va .ip6)).isSome = true
  global : (inet.prefix6ToI (va .globalPrefix)).isSome = true
  ula : (inet.prefix6ToI (va .ulaPrefix)).isSome = true

theorem unsignedValue_congr {va vb : VectorAttribute} {name : AttrName} (h : va name = vb name)
    (width : ℕ) : va.unsignedValue name width = vb.unsignedValue name width := by
  unfold VectorAttribute.unsignedValue
  rw [h]

/-- Nothing of this is in the attribute `ALLOCATED`. -/
theorem Readable.congr {inet : Inet6} {va vb : VectorAttribute} {t : AddressType} {n : ℕ}
    (h : Readable inet va t n) (heq : ∀ name, name ≠ .allocated → vb name = va name) :
    Readable inet vb t n where
  arId := by
    rw [unsignedValue_congr (heq .arId (by decide))]
    exact h.arId
  size := by
    rw [unsignedValue_congr (heq .size (by decide))]
    exact h.size
  type := by
    rw [heq .type (by decide)]
    exact h.type
  known := h.known
  mac := by
    rw [heq .mac (by decide)]
    exact h.mac
  ip := by
    rw [heq .ip (by decide)]
    exact h.ip
  ip6 := by
    rw [heq .ip6 (by decide)]
    exact h.ip6
  global := by
    rw [heq .globalPrefix (by decide)]
    exact h.global
  ula := by
    rw [heq .ulaPrefix (by decide)]
    exact h.ula

/-- A new range is loaded from the attributes of `ar`, and has its leases. -/
def Loads (inet : Inet6) (ar : AddressRange) : Prop :=
  ∀ (env : ArEnv) (id : ℕ) (ipam : Bool), env.inet = inet →
    ((new id ipam).fromVattrDb env (allocatedToAttr ar).attr).2 = true ∧
      ((new id ipam).fromVattrDb env (allocatedToAttr ar).attr).1.allocated = ar.allocated

/-- **Loading.** -/
theorem loads_of_readable {inet : Inet6} {ar : AddressRange}
    (h : Readable inet ar.attr ar.type ar.size) (hb : InBounds ar) : Loads inet ar := by
  rintro env id ipam rfl
  have hr : Readable env.inet (allocatedToAttr ar).attr ar.type ar.size :=
    h.congr (moves_allocatedToAttr ar ar.allocated).attr
  have htext : (allocatedToAttr ar).attr .allocated = leasesText ar.leases :=
    ar.attr.replace_self .allocated (leasesText ar.leases)
  generalize (allocatedToAttr ar).attr = va at hr htext
  -- the default of `SHARED` is set before the rest is read
  have hshared : ∀ name, name ≠ .shared →
      (if va.boolValue .shared = none then va.replaceBool .shared false else va) name = va name := by
    intro name hname
    split
    · exact VectorAttribute.replace_of_ne _ _ hname
    · rfl
  unfold fromVattrDb loaded
  simp only [unsignedValue_congr (hshared .size (by decide)), hshared .mac (by decide),
    hshared .ip (by decide), hshared .ip6 (by decide), hshared .globalPrefix (by decide),
    hshared .ulaPrefix (by decide), hshared .allocated (by decide), htext, hr.size,
    Option.getD_some]
  rw [attrToAllocated_leasesText hb _ (by rfl) (by rfl)]
  refine ⟨?_, rfl⟩
  have hip : (if ar.type.isIpv4 = true then ((ipToI (va .ip)).getD (new id ipam).ip,
      (ipToI (va .ip)).isSome) else ((new id ipam).ip, true)).2 = true := by
    split
    · rename_i hv4
      exact hr.ip hv4
    · rfl
  have hip6 : (if ar.type.isIpv6Static = true then ((env.inet.ip6ToI (va .ip6)).getD
      (new id ipam).ip6, (env.inet.ip6ToI (va .ip6)).isSome) else ((new id ipam).ip6, true)).2 =
      true := by
    split
    · rename_i hv6
      exact hr.ip6 hv6
    · rfl
  simp only [hr.type, hip, hip6, hr.arId, hr.mac, hr.global, hr.ula, hr.known, Option.isSome_some,
    Bool.and_true, ne_eq, not_false_eq_true, decide_true]

/-! ## The start of a range -/

/-- A stage of the initialisation changes only one attribute or two. -/
structure Stage (ar ar' : AddressRange) (names : List AttrName) : Prop where
  id : ar'.id = ar.id
  type : ar'.type = ar.type
  shared : ar'.shared = ar.shared
  ipam : ar'.ipam = ar.ipam
  next : ar'.next = ar.next
  allocated : ar'.allocated = ar.allocated
  attr : ∀ name, name ∉ names → ar'.attr name = ar.attr name

theorem andThen_none {r : AddressRange × Option String}
    {f : AddressRange → AddressRange × Option String} {ar : AddressRange}
    (h : andThen r f = (ar, none)) : ∃ ar₁, r = (ar₁, none) ∧ f ar₁ = (ar, none) := by
  obtain ⟨ar₁, e⟩ := r
  cases e with
  | some e => exact absurd (Prod.mk.inj h).2 (by simp)
  | none => exact ⟨ar₁, rfl, h⟩

section Stages

variable {ar ar' : AddressRange} {env : ArEnv}

theorem remove_of_ne {va : VectorAttribute} {name n : AttrName} (h : n ≠ name) :
    va.remove name n = va n :=
  va.replace_of_ne [] h

theorem foldl_remove (names : List AttrName) :
    ∀ (va : VectorAttribute) {name : AttrName}, name ∉ names →
      names.foldl VectorAttribute.remove va name = va name := by
  induction names with
  | nil => exact fun _ _ _ => rfl
  | cons n names ih =>
    intro va name hname
    obtain ⟨hne, hrest⟩ := not_or.mp (fun h => hname (List.mem_cons.mpr h))
    rw [List.foldl_cons, ih _ hrest, remove_of_ne hne]

theorem initType_none (h : initType ar = (ar', none)) :
    ar'.type = AddressType.ofText (ar.attr .type) ∧ ar'.type ≠ .none ∧
      Stage { ar with type := AddressType.ofText (ar.attr .type), shared := ar'.shared } ar'
        [.shared] := by
  have hattr : ∀ (b : Bool) (name : AttrName), name ∉ [AttrName.shared] →
      ar.attr.replaceBool .shared b name = ar.attr name := by
    intro b name hname
    exact VectorAttribute.replace_of_ne _ _ (by simpa using hname)
  unfold initType at h
  dsimp only at h
  split at h
  · exact absurd (Prod.mk.inj h).2 (by simp)
  · rename_i hknown
    split at h
    · split at h
      · exact absurd (Prod.mk.inj h).2 (by simp)
      · split at h
        · exact absurd (Prod.mk.inj h).2 (by simp)
        · obtain ⟨rfl, -⟩ := Prod.mk.inj h
          exact ⟨rfl, hknown, rfl, rfl, rfl, rfl, rfl, rfl, hattr _⟩
    · obtain ⟨rfl, -⟩ := Prod.mk.inj h
      exact ⟨rfl, hknown, rfl, rfl, rfl, rfl, rfl, rfl, hattr _⟩

theorem initIpv4_none (h : initIpv4 ar = (ar', none)) :
    Stage ar ar' [.ip] ∧ (ar'.type.isIpv4 = true → (ipToI (ar'.attr .ip)).isSome = true) := by
  unfold initIpv4 at h
  split at h
  · split at h
    · rename_i ip hip
      obtain ⟨rfl, -⟩ := Prod.mk.inj h
      refine ⟨⟨rfl, rfl, rfl, rfl, rfl, rfl, fun _ _ => rfl⟩, fun _ => ?_⟩
      split at hip
      · exact absurd hip (by simp)
      · exact Option.isSome_iff_exists.mpr ⟨ip, hip⟩
    · exact absurd (Prod.mk.inj h).2 (by simp)
  · rename_i htype
    obtain ⟨rfl, -⟩ := Prod.mk.inj h
    exact ⟨⟨rfl, rfl, rfl, rfl, rfl, rfl, fun name hname => remove_of_ne (by simpa using hname)⟩,
      fun htype' => absurd htype' htype⟩

theorem initIpv6_none (h : initIpv6 env ar = (ar', none)) :
    Stage ar ar' [.globalPrefix, .ulaPrefix] ∧
      (env.inet.prefix6ToI (ar'.attr .globalPrefix)).isSome = true ∧
      (env.inet.prefix6ToI (ar'.attr .ulaPrefix)).isSome = true := by
  unfold initIpv6 at h
  split at h
  · split at h
    · exact absurd (Prod.mk.inj h).2 (by simp)
    · rename_i hglobal
      dsimp only at h
      split at h
      · exact absurd (Prod.mk.inj h).2 (by simp)
      · rename_i hula
        obtain ⟨rfl, -⟩ := Prod.mk.inj h
        exact ⟨⟨rfl, rfl, rfl, rfl, rfl, rfl, fun _ _ => rfl⟩,
          Option.isSome_iff_exists.mpr ⟨_, hglobal⟩, Option.isSome_iff_exists.mpr ⟨_, hula⟩⟩
  · obtain ⟨rfl, -⟩ := Prod.mk.inj h
    refine ⟨⟨rfl, rfl, rfl, rfl, rfl, rfl, ?_⟩, ?_, ?_⟩
    · intro name hname
      simp only [List.mem_cons, List.not_mem_nil, or_false, not_or] at hname
      exact (remove_of_ne hname.2).trans (remove_of_ne hname.1)
    · show (env.inet.prefix6ToI ((ar.attr.remove .globalPrefix).remove .ulaPrefix
        .globalPrefix)).isSome = true
      rw [remove_of_ne (by decide), VectorAttribute.remove, VectorAttribute.replace_self]
      rfl
    · show (env.inet.prefix6ToI ((ar.attr.remove .globalPrefix).remove .ulaPrefix
        .ulaPrefix)).isSome = true
      rw [VectorAttribute.remove, VectorAttribute.replace_self]
      rfl

theorem initIpv6Static_none (h : initIpv6Static env ar = (ar', none)) :
    Stage ar ar' [.ip6, .size] ∧
      (ar'.type.isIpv6Static = true → (env.inet.ip6ToI (ar'.attr .ip6)).isSome = true) := by
  unfold initIpv6Static at h
  split at h
  · split at h
    · exact absurd (Prod.mk.inj h).2 (by simp)
    · rename_i ip6 hip6
      dsimp only at h
      split at h
      · exact absurd (Prod.mk.inj h).2 (by simp)
      · split at h
        · obtain ⟨rfl, -⟩ := Prod.mk.inj h
          refine ⟨⟨rfl, rfl, rfl, rfl, rfl, rfl, ?_⟩, fun _ => ?_⟩
          · intro name hname
            exact VectorAttribute.replace_of_ne _ _ (by simp at hname; exact hname.2)
          · dsimp only
            rw [VectorAttribute.replaceNat, VectorAttribute.replace_of_ne _ _ (by decide)]
            exact Option.isSome_iff_exists.mpr ⟨ip6, hip6⟩
        · obtain ⟨rfl, -⟩ := Prod.mk.inj h
          exact ⟨⟨rfl, rfl, rfl, rfl, rfl, rfl, fun _ _ => rfl⟩,
            fun _ => Option.isSome_iff_exists.mpr ⟨ip6, hip6⟩⟩
  · rename_i htype
    obtain ⟨rfl, -⟩ := Prod.mk.inj h
    refine ⟨⟨rfl, rfl, rfl, rfl, rfl, rfl, ?_⟩, fun htype' => absurd htype' htype⟩
    intro name hname
    exact remove_of_ne (by simp at hname; exact hname.1)

/-- Whether a text is a MAC address does not depend on the variable that is not initialised. -/
theorem macToI_isSome {s : Text} {junk : UInt32} {m : Mac} (h : macToI junk s = some m)
    (junk' : UInt32) : (macToI junk' s).isSome = true := by
  unfold macToI at h ⊢
  split
  · rfl
  · rename_i hs
    rw [if_neg hs] at h
    split
    · rename_i hcount
      rw [if_pos hcount] at h
      exact absurd h (by simp)
    · rfl

theorem initMac_none (h : initMac env ar = (ar', none)) :
    Stage ar ar' [.mac] ∧ ∀ junk, (macToI junk (ar'.attr .mac)).isSome = true := by
  have hother : ∀ (m : Mac) (name : AttrName), name ∉ [AttrName.mac] →
      ar.attr.replace .mac (macToS m) name = ar.attr name :=
    fun m name hname => VectorAttribute.replace_of_ne _ _ (by simpa using hname)
  have hmac : ∀ (m : Mac) (junk : UInt32),
      (macToI junk (ar.attr.replace .mac (macToS m) .mac)).isSome = true := by
    intro m junk
    rw [VectorAttribute.replace_self, macToI_macToS]
    rfl
  unfold initMac setMac at h
  dsimp only at h
  split at h
  · obtain ⟨rfl, -⟩ := Prod.mk.inj h
    refine ⟨⟨rfl, rfl, rfl, rfl, rfl, rfl, hother _⟩, ?_⟩
    dsimp only
    exact hmac _
  · split at h
    · obtain ⟨rfl, -⟩ := Prod.mk.inj h
      refine ⟨⟨rfl, rfl, rfl, rfl, rfl, rfl, hother _⟩, ?_⟩
      dsimp only
      exact hmac _
    · split at h
      · rename_i mac hmac
        obtain ⟨rfl, -⟩ := Prod.mk.inj h
        exact ⟨⟨rfl, rfl, rfl, rfl, rfl, rfl, fun _ _ => rfl⟩, macToI_isSome hmac⟩
      · exact absurd (Prod.mk.inj h).2 (by simp)

theorem unsignedValue_toDigits (va : VectorAttribute) (name : AttrName) {n width : ℕ}
    (h : n < 2 ^ width) : (va.replaceNat name n).unsignedValue name width = some n := by
  have hne : Nat.toDigits 10 n ≠ [] := Nat.toDigits_ne_nil
  have hread := getUnsigned_toDigits h (Or.inl rfl)
  rw [List.append_nil] at hread
  have hminus : (skipWs (Nat.toDigits 10 n)).head? ≠ some '-' := by
    obtain ⟨c, t, hct⟩ := List.exists_cons_of_ne_nil hne
    have hmem : c ∈ Nat.toDigits 10 n := by
      rw [hct]
      exact List.mem_cons_self
    have hdig := digit_cases (isDigitOf_toDigits (by norm_num) (by norm_num) n c hmem)
    rw [hct, skipWs, List.dropWhile_cons_of_neg (by simp [hdig.1])]
    simpa using hdig.2.1
  unfold VectorAttribute.unsignedValue VectorAttribute.replaceNat
  rw [VectorAttribute.replace_self, if_neg hne, if_neg hminus, hread]
  rfl

theorem initSize_none (hid : ar.id < 2 ^ 32) (h : initSize ar = (ar', none)) :
    Stage ar ar' [.arId, .allocated, .usedLeases, .leases, .parentNetworkArId, .parentNetwork] ∧
      ar'.attr.unsignedValue .size 64 = some ar'.size ∧
      (ar'.attr.unsignedValue .arId 32).isSome = true := by
  unfold initSize at h
  split at h
  · exact absurd (Prod.mk.inj h).2 (by simp)
  · rename_i size hsize
    obtain ⟨rfl, -⟩ := Prod.mk.inj h
    refine ⟨⟨rfl, rfl, rfl, rfl, rfl, rfl, ?_⟩, ?_, ?_⟩
    · intro name hname
      obtain ⟨hne, hrest⟩ := not_or.mp (fun h => hname (List.mem_cons.mpr h))
      dsimp only
      rw [foldl_remove _ _ hrest, VectorAttribute.replaceNat, VectorAttribute.replace_of_ne _ _ hne]
    · dsimp only
      rw [← hsize]
      apply unsignedValue_congr
      rw [foldl_remove _ _ (by decide), VectorAttribute.replaceNat,
        VectorAttribute.replace_of_ne _ _ (by decide)]
    · dsimp only
      rw [unsignedValue_congr (foldl_remove _ _ (by decide)), unsignedValue_toDigits _ _ hid]
      rfl

end Stages

/-- **The start.**  A range that `from_attr` accepts can be loaded, and has no leases. -/
theorem readable_fromAttr {env : ArEnv} {vattr : VectorAttribute} {id : ℕ} {ipam : Bool}
    {ar : AddressRange} (hid : id < 2 ^ 32) (h : (new id ipam).fromAttr env vattr = (ar, none)) :
    Readable env.inet ar.attr ar.type ar.size ∧ ar.allocated = ∅ ∧ ar.ipam = ipam ∧ ar.next = 0 := by
  unfold fromAttr at h
  obtain ⟨ar₅, h, h6⟩ := andThen_none h
  obtain ⟨ar₄, h, h5⟩ := andThen_none h
  obtain ⟨ar₃, h, h4⟩ := andThen_none h
  obtain ⟨ar₂, h, h3⟩ := andThen_none h
  obtain ⟨ar₁, h1, h2⟩ := andThen_none h
  obtain ⟨htype, hknown, s1⟩ := initType_none h1
  obtain ⟨s2, hip⟩ := initIpv4_none h2
  obtain ⟨s3, hglobal, hula⟩ := initIpv6_none h3
  obtain ⟨s4, hip6⟩ := initIpv6Static_none h4
  obtain ⟨s5, hmac⟩ := initMac_none h5
  have hid5 : ar₅.id = id := by
    rw [s5.id, s4.id, s3.id, s2.id, s1.id]
    rfl
  obtain ⟨s6, hsize, harid⟩ := initSize_none (by rw [hid5]; exact hid) h6
  have ht6 : ar.type = ar₁.type := by rw [s6.type, s5.type, s4.type, s3.type, s2.type]
  refine ⟨⟨harid, hsize, ?_, ?_, ?_, ?_, ?_, ?_, ?_⟩, ?_, ?_, ?_⟩
  · rw [s6.attr _ (by decide), s5.attr _ (by decide), s4.attr _ (by decide), s3.attr _ (by decide),
      s2.attr _ (by decide), s1.attr _ (by decide), ht6, htype]
  · rw [ht6]
    exact hknown
  · rw [s6.attr _ (by decide)]
    exact hmac
  · intro hv4
    rw [s6.attr _ (by decide), s5.attr _ (by decide), s4.attr _ (by decide), s3.attr _ (by decide)]
    exact hip (by rw [s2.type, ← ht6]; exact hv4)
  · intro hv6
    rw [s6.attr _ (by decide), s5.attr _ (by decide)]
    exact hip6 (by rw [s4.type, s3.type, s2.type, ← ht6]; exact hv6)
  · rw [s6.attr _ (by decide), s5.attr _ (by decide), s4.attr _ (by decide)]
    exact hglobal
  · rw [s6.attr _ (by decide), s5.attr _ (by decide), s4.attr _ (by decide)]
    exact hula
  · rw [s6.allocated, s5.allocated, s4.allocated, s3.allocated, s2.allocated, s1.allocated]
    rfl
  · rw [s6.ipam, s5.ipam, s4.ipam, s3.ipam, s2.ipam, s1.ipam]
    rfl
  · rw [s6.next, s5.next, s4.next, s3.next, s2.next, s1.next]
    rfl

/-! ## Updates -/

section Update

variable {ar ar' : AddressRange} {env : ArEnv} {vup : VectorAttribute}

theorem unsignedValue_lt {va : VectorAttribute} {name : AttrName} {n width : ℕ}
    (h : va.unsignedValue name width = some n) : n < 2 ^ width := by
  have hpos : 0 < 2 ^ width := Nat.two_pow_pos width
  have hget : ∀ s, (getUnsigned 10 width s).value < 2 ^ width := by
    intro s
    unfold getUnsigned
    dsimp only
    split
    · exact hpos
    · split
      · rename_i hv
        dsimp only
        split
        · exact Nat.mod_lt _ hpos
        · exact hv
      · exact Nat.sub_lt hpos Nat.one_pos
  unfold VectorAttribute.unsignedValue at h
  split at h
  · exact absurd h (by simp)
  · split at h
    · exact absurd h (by simp)
    · dsimp only at h
      split at h
      · rw [← Option.some.inj h]
        exact hget _
      · exact absurd h (by simp)

/-- A size that is accepted leaves no lease outside. -/
theorem newSize_ok {size : ℕ} (h : ar.newSize vup = .ok size) :
    size = ar.size ∨ (size < 2 ^ 64 ∧ ∀ i ∈ ar.usedIndexes, i < size) := by
  unfold newSize at h
  split at h
  · exact Or.inl (Except.ok.inj h).symm
  · split at h
    · exact absurd h (by simp)
    · rename_i n hn
      split at h
      · exact absurd h (by simp)
      · split at h
        · exact absurd h (by simp)
        · rename_i hout
          obtain rfl := Except.ok.inj h
          refine Or.inr ⟨unsignedValue_lt hn, ?_⟩
          intro i hi
          by_contra hge
          refine hout (Finset.ne_empty_of_mem (Finset.mem_filter.mpr ⟨hi, ?_⟩))
          have hle : (n - 1) % 2 ^ 32 ≤ n - 1 := Nat.mod_le _ _
          omega

/-- What the last part of an update does. -/
theorem updateSize_cases {e : Option String} (h : ar.updateSize vup = (ar', e)) :
    ar' = ar ∨ ∃ size, ar.newSize vup = .ok size ∧
      ar' = { ar with
        attr := ar'.attr, size := size, portStart := ar'.portStart, portSize := ar'.portSize } ∧
      ar'.attr .size = Nat.toDigits 10 size ∧
      ∀ name, name ≠ .size → name ≠ .portStart → name ≠ .portSize → ar'.attr name = vup name := by
  unfold updateSize at h
  split at h
  · exact Or.inl (Prod.mk.inj h).1.symm
  · rename_i size hsize
    obtain ⟨rfl, -⟩ := Prod.mk.inj h
    -- the ports that cannot be read are removed
    have hports : ∀ (c : Prop) [Decidable c] (n : AttrName) (va : VectorAttribute)
        (name : AttrName), name ≠ n → (if c then va.remove n else va) name = va name := by
      intro c _ n va name hname
      split
      · exact remove_of_ne hname
      · rfl
    refine Or.inr ⟨size, hsize, rfl, ?_, ?_⟩
    · dsimp only
      rw [hports _ _ _ _ (by decide), hports _ _ _ _ (by decide)]
      exact VectorAttribute.replace_self _ _ _
    · intro name hs hp hq
      dsimp only
      rw [hports _ _ _ _ hq, hports _ _ _ _ hp]
      exact VectorAttribute.replace_of_ne _ _ hs

/-- The attributes that an update cannot change. -/
theorem updateAttr_spec (ar : AddressRange) (vup : VectorAttribute) :
    ar.updateAttr vup .type = ar.attr .type ∧ ar.updateAttr vup .shared = ar.attr .shared ∧
      ar.updateAttr vup .mac = ar.attr .mac ∧ ar.updateAttr vup .arId = ar.attr .arId ∧
      (ar.type.isIpv4 = true → ar.updateAttr vup .ip = ar.attr .ip) ∧
      (ar.type.isIpv6Static = true → ar.updateAttr vup .ip6 = ar.attr .ip6) := by
  have hlast : ∀ (va : VectorAttribute) (s : Text) {name : AttrName}, name ≠ .prefixLength →
      (if ar.type.isIpv6Static then
        if va.intValue .prefixLength = none then va.replace .prefixLength s else va
        else va.remove .prefixLength) name = va name := by
    intro va s name hname
    split
    · split
      · exact VectorAttribute.replace_of_ne _ _ hname
      · rfl
    · exact remove_of_ne hname
  have hipam : ∀ (va : VectorAttribute) {name : AttrName}, name ≠ .ipamMad →
      (if ar.attr .ipamMad ≠ [] ∧ ar.shared = false then va.replace .ipamMad (ar.attr .ipamMad)
        else va) name = va name := by
    intro va name hname
    split
    · exact VectorAttribute.replace_of_ne _ _ hname
    · rfl
  have hne : ∀ (va : VectorAttribute) (s : Text) {name n : AttrName}, n ≠ name →
      va.replace name s n = va n := fun va s _ _ h => va.replace_of_ne s h
  unfold updateAttr
  refine ⟨?_, ?_, ?_, ?_, ?_, ?_⟩
  · rw [hlast _ _ (by decide), foldl_remove _ _ (by decide), hne _ _ (by decide),
      hne _ _ (by decide), hne _ _ (by decide), hne _ _ (by decide), hne _ _ (by decide),
      hipam _ (by decide), hne _ _ (by decide), hne _ _ (by decide),
      VectorAttribute.replace_self]
  · rw [hlast _ _ (by decide), foldl_remove _ _ (by decide), hne _ _ (by decide),
      hne _ _ (by decide), hne _ _ (by decide), hne _ _ (by decide), hne _ _ (by decide),
      hipam _ (by decide), hne _ _ (by decide), VectorAttribute.replace_self]
  · rw [hlast _ _ (by decide), foldl_remove _ _ (by decide), hne _ _ (by decide),
      hne _ _ (by decide), hne _ _ (by decide), hne _ _ (by decide), hne _ _ (by decide),
      hipam _ (by decide), VectorAttribute.replace_self]
  · rw [hlast _ _ (by decide), foldl_remove _ _ (by decide), hne _ _ (by decide),
      hne _ _ (by decide), VectorAttribute.replace_self]
  · intro hv4
    rw [hlast _ _ (by decide), foldl_remove _ _ (by decide), hne _ _ (by decide),
      hne _ _ (by decide), hne _ _ (by decide), hne _ _ (by decide), VectorAttribute.replace_self,
      if_pos hv4]
  · intro hv6
    rw [hlast _ _ (by decide), foldl_remove _ _ (by decide), hne _ _ (by decide),
      hne _ _ (by decide), hne _ _ (by decide), VectorAttribute.replace_self, if_pos hv6]

/-- What an update leaves as it was, and what it has checked of the size. -/
structure Updated (ar ar' : AddressRange) : Prop where
  base : ar' = { ar with
    attr := ar'.attr, size := ar'.size, global6 := ar'.global6, ula6 := ar'.ula6,
    portStart := ar'.portStart, portSize := ar'.portSize }
  size : ar'.size = ar.size ∨ (ar'.size < 2 ^ 64 ∧ ∀ i ∈ ar.usedIndexes, i < ar'.size)

/-- The attributes after an update: as they were, or those of the template with the size. -/
def Rewritten (ar : AddressRange) (env : ArEnv) (vup : VectorAttribute) (ar' : AddressRange) : Prop :=
  (ar'.attr = ar.attr ∧ ar'.size = ar.size) ∨
    (ar'.attr .size = Nat.toDigits 10 ar'.size ∧
      (∀ name ∈ [AttrName.type, .shared, .mac, .arId, .ip, .ip6],
        ar'.attr name = ar.updateAttr vup name) ∧
      (env.inet.prefix6ToI (ar'.attr .globalPrefix)).isSome = true ∧
      (env.inet.prefix6ToI (ar'.attr .ulaPrefix)).isSome = true)

/-- **`update_attributes`.** -/
theorem updateAttributes_cases {e : Option String}
    (h : ar.updateAttributes env vup = (ar', e)) :
    Updated ar ar' ∧ Rewritten ar env vup ar' := by
  -- the end of the update, from a range that differs in its prefixes only
  have hend : ∀ (g u : Prefix6) (v : VectorAttribute),
      (∀ name ∈ [AttrName.type, .shared, .mac, .arId, .ip, .ip6], v name = ar.updateAttr vup name) →
      (env.inet.prefix6ToI (v .globalPrefix)).isSome = true →
      (env.inet.prefix6ToI (v .ulaPrefix)).isSome = true →
      updateSize { ar with global6 := g, ula6 := u } v = (ar', e) →
      Updated ar ar' ∧ Rewritten ar env vup ar' := by
    intro g u v hnames hglobal hula hup
    rcases updateSize_cases hup with rfl | ⟨size, hsize, hbase, htext, hother⟩
    · exact ⟨⟨rfl, Or.inl rfl⟩, Or.inl ⟨rfl, rfl⟩⟩
    · have hs : ar'.size = size := by rw [hbase]
      refine ⟨⟨?_, ?_⟩, Or.inr ⟨?_, ?_, ?_, ?_⟩⟩
      · rw [hbase]
      · rw [hs]
        exact newSize_ok hsize
      · rw [hs]
        exact htext
      · intro name hname
        rw [hother name (by rintro rfl; exact absurd hname (by decide))
          (by rintro rfl; exact absurd hname (by decide))
          (by rintro rfl; exact absurd hname (by decide))]
        exact hnames name hname
      · rw [hother _ (by decide) (by decide) (by decide)]
        exact hglobal
      · rw [hother _ (by decide) (by decide) (by decide)]
        exact hula
  unfold updateAttributes at h
  dsimp only at h
  split at h
  · split at h
    · obtain ⟨rfl, -⟩ := Prod.mk.inj h
      exact ⟨⟨rfl, Or.inl rfl⟩, Or.inl ⟨rfl, rfl⟩⟩
    · rename_i g hg
      split at h
      · obtain ⟨rfl, -⟩ := Prod.mk.inj h
        exact ⟨⟨rfl, Or.inl rfl⟩, Or.inl ⟨rfl, rfl⟩⟩
      · rename_i u hu
        exact hend g u _ (fun _ _ => rfl) (Option.isSome_iff_exists.mpr ⟨g, hg⟩)
          (Option.isSome_iff_exists.mpr ⟨u, hu⟩) h
  · refine hend ar.global6 ar.ula6 _ ?_ ?_ ?_ h
    · intro name hname
      rw [remove_of_ne (by rintro rfl; exact absurd hname (by decide)),
        remove_of_ne (by rintro rfl; exact absurd hname (by decide))]
    · rw [remove_of_ne (by decide), VectorAttribute.remove, VectorAttribute.replace_self]
      rfl
    · rw [VectorAttribute.remove, VectorAttribute.replace_self]
      rfl

/-- An update leaves a range that can be loaded. -/
theorem readable_updateAttributes {e : Option String}
    (hr : Readable env.inet ar.attr ar.type ar.size)
    (h : ar.updateAttributes env vup = (ar', e)) :
    Readable env.inet ar'.attr ar'.type ar'.size := by
  obtain ⟨hup, hattr⟩ := updateAttributes_cases h
  have htype : ar'.type = ar.type := by rw [hup.base]
  rw [htype]
  rcases hattr with ⟨hsame, hsize⟩ | ⟨htext, hnames, hglobal, hula⟩
  · rw [hsame, hsize]
    exact hr
  · obtain ⟨ht, -, hmac, harid, hip, hip6⟩ := ar.updateAttr_spec vup
    have hlt : ar'.size < 2 ^ 64 := by
      rcases hup.size with hsize | ⟨hlt, -⟩
      · rw [hsize]
        exact unsignedValue_lt hr.size
      · exact hlt
    refine ⟨?_, ?_, ?_, hr.known, ?_, ?_, ?_, hglobal, hula⟩
    · rw [unsignedValue_congr ((hnames .arId (by decide)).trans harid)]
      exact hr.arId
    · rw [← unsignedValue_toDigits ar'.attr .size hlt]
      apply unsignedValue_congr
      rw [htext, VectorAttribute.replaceNat, VectorAttribute.replace_self]
    · rw [hnames .type (by decide), ht]
      exact hr.type
    · rw [hnames .mac (by decide), hmac]
      exact hr.mac
    · intro hv4
      rw [hnames .ip (by decide), hip hv4]
      exact hr.ip hv4
    · intro hv6
      rw [hnames .ip6 (by decide), hip6 hv6]
      exact hr.ip6 hv6

end Update

/-! ## Runs -/

/-- The condition under which an operation keeps the leases inside the range: a single address is
taken from a cursor inside, or no address is taken; and a reservation that begins at an address of
the range ends inside, or takes nothing. -/
def BoundOk (inet : Inet6) (ar : AddressRange) (e : ArEnv × ArOp) : Prop :=
  match e.2 with
  | .allocateAddr .. => ar.shared = true ∨ ar.size ≤ ar.usedAddr ∨ ar.next.toNat < ar.size
  | .reserveAddr _ rsize _ =>
    rsize.toNat ≠ 1 ∨ ar.shared = true ∨ ar.freeAddrs < 1 ∨ ar.next.toNat < ar.size
  | .reserveAddrBy t _ rsize _ =>
    ∀ i ∈ ar.startIndex { e.1 with inet := inet } t,
      i + rsize.toNat ≤ ar.size ∨ 2 ^ 32 ≤ i + rsize.toNat ∨
        ∃ j ∈ blockFrom i rsize.toNat, j ∈ ar.usedIndexes
  | _ => True

theorem packOwner_fits (ot : ObjectType) (obid : ℤ) :
    0 ≤ packOwner ot obid ∧ packOwner ot obid < 2 ^ 63 := by
  refine ⟨Int.natCast_nonneg _, ?_⟩
  have hcode : ot.code < 2 ^ 63 := by
    cases ot <;> decide
  have hid : (obid % 2 ^ 32).toNat < 2 ^ 63 := by
    have := Int.emod_lt_of_pos obid (show (0 : ℤ) < 2 ^ 32 by norm_num)
    omega
  have hor := Nat.or_lt_two_pow hcode hid
  unfold packOwner
  exact_mod_cast hor

section Bounds

variable {ar ar' : AddressRange} {inet : Inet6}

theorem InBounds.takes {ot : ObjectType} {obid : ℤ} {is : List ℕ} (h : InBounds ar)
    (ht : Takes ar ar' (packOwner ot obid) is) (his : ∀ i ∈ is, i < ar.size ∧ i < 2 ^ 32) :
    InBounds ar' := by
  have hcase : ∀ l ∈ ar'.allocated, l ∈ ar.allocated ∨ (l.1 ∈ is ∧ l.2 = packOwner ot obid) := by
    rintro ⟨i, o⟩ hl
    rw [ht.allocated, Finset.mem_union, mem_leasesOf] at hl
    exact hl
  constructor
  · intro l hl
    rw [ht.moves.size]
    rcases hcase l hl with hold | ⟨hi, -⟩
    · exact h.lt_size l hold
    · exact (his _ hi).1
  · intro l hl
    rcases hcase l hl with hold | ⟨hi, ho⟩
    · exact h.fits l hold
    · refine ⟨(his _ hi).2, ?_⟩
      rw [ho]
      exact packOwner_fits ot obid

/-- Fewer leases, and a size that is the same. -/
theorem InBounds.subset (h : InBounds ar) (hsub : ar'.allocated ⊆ ar.allocated)
    (hsize : ar'.size = ar.size) : InBounds ar' where
  lt_size := by
    intro l hl
    rw [hsize]
    exact h.lt_size l (hsub hl)
  fits := fun l hl => h.fits l (hsub hl)

theorem InBounds.keeps (h : InBounds ar) (hk : Keeps ar ar') : InBounds ar' :=
  h.subset (by rw [hk.allocated]) hk.moves.size

theorem InBounds.frees {owner : ℤ} {is : List ℕ} (h : InBounds ar) (hf : Frees ar ar' owner is) :
    InBounds ar' := by
  refine h.subset ?_ hf.moves.size
  rw [hf.allocated]
  exact Finset.sdiff_subset

theorem InBounds.updated (h : InBounds ar) (hu : Updated ar ar') : InBounds ar' := by
  have halloc : ar'.allocated = ar.allocated := by rw [hu.base]
  rcases hu.size with hsize | ⟨-, hin⟩
  · exact h.subset (by rw [halloc]) hsize
  · constructor
    · intro l hl
      rw [halloc] at hl
      exact hin l.1 (mem_usedIndexes.mpr ⟨l.2, hl⟩)
    · intro l hl
      rw [halloc] at hl
      exact h.fits l hl

/-- The invariant of a run. -/
structure Bounded (inet : Inet6) (ar : AddressRange) : Prop where
  readable : Readable inet ar.attr ar.type ar.size
  inBounds : InBounds ar

theorem Bounded.moves (h : Bounded inet ar) (hm : Moves ar ar') (hb : InBounds ar') :
    Bounded inet ar' := by
  refine ⟨?_, hb⟩
  rw [hm.type, hm.size]
  exact h.readable.congr hm.attr

/-- The addresses of a block that `get_addr` has found are inside. -/
theorem Block.lt {first rsize : ℕ} (h : Block ar first rsize)
    (hcase : ar.ipam = true ∨ rsize ≠ 1 ∨ ar.next.toNat < ar.size) :
    ∀ i ∈ List.range' first rsize, i < ar.size ∧ i < 2 ^ 32 := by
  intro i hi
  obtain ⟨hle, hlt⟩ := List.mem_range'_1.mp hi
  have hin := (h.bound hcase).2 (i - first) (by omega)
  have := h.le_word
  omega

/-- **One step.** -/
theorem Bounded.step {e : ArEnv × ArOp} (h : Bounded inet ar) (hok : BoundOk inet ar e)
    (hstep : ar.stepIn inet e = some ar') : Bounded inet ar' := by
  obtain ⟨env, op⟩ := e
  generalize henv : ({ env with inet := inet } : ArEnv) = env' at *
  have hinet : env'.inet = inet := by rw [← henv]
  unfold stepIn at hstep
  simp only [henv] at hstep
  cases op with
  | allocateAddr ot obid inherit nic =>
    obtain rfl := Option.some.inj hstep
    rcases allocateAddr_cases (Prod.mk.eta.symm) with ⟨-, hk⟩ | ⟨i, _, -, hblock, hsh, hroom, ht⟩
    · exact h.moves hk.moves (h.inBounds.keeps hk)
    · have hnext : ar.next.toNat < ar.size := by
        rcases hok with hok | hok | hok
        · exact absurd hok (by simp [hsh])
        · omega
        · exact hok
      exact h.moves ht.moves (h.inBounds.takes ht (hblock.lt (Or.inr (Or.inr hnext))))
  | allocateBy t ot obid inherit nic =>
    obtain rfl := Option.some.inj hstep
    rcases allocateBy_cases (Prod.mk.eta.symm) with ⟨-, heq⟩ | ⟨i, _, hfound, -, ht⟩
    · rw [heq]
      exact h
    · refine h.moves ht.moves (h.inBounds.takes ht ?_)
      intro j hj
      rw [List.mem_singleton.mp hj]
      exact ⟨hfound.lt_size, hfound.lt_word⟩
  | holdBy t =>
    obtain rfl := Option.some.inj hstep
    rcases holdBy_cases (Prod.mk.eta.symm) with ⟨-, heq⟩ | ⟨i, hfound, -, ht⟩
    · rw [heq]
      exact h
    · refine h.moves ht.moves (h.inBounds.takes ht ?_)
      intro j hj
      rw [List.mem_singleton.mp hj]
      exact ⟨hfound.lt_size, hfound.lt_word⟩
  | reserveAddr vid rsize rar =>
    obtain rfl := Option.some.inj hstep
    rcases reserveAddr_cases (Prod.mk.eta.symm) with ⟨-, hk⟩ | ⟨first, -, -, hsh, hroom, hblock, ht⟩
    · exact h.moves hk.moves (h.inBounds.keeps hk)
    · refine h.moves ht.moves (h.inBounds.takes ht (hblock.lt (Or.inr ?_)))
      rcases hok with hok | hok | hok | hok
      · exact Or.inl hok
      · exact absurd hok (by simp [hsh])
      · left
        omega
      · exact Or.inr hok
  | reserveAddrBy t vid rsize rar =>
    obtain rfl := Option.some.inj hstep
    rcases reserveAddrBy_cases (Prod.mk.eta.symm) with ⟨-, heq⟩ | ⟨i, hstart, -, hfree, ht⟩
    · rw [heq]
      exact h
    · obtain ⟨-, hfound⟩ := startIndex_some hstart
      have hi := hfound.lt_word
      refine h.moves ht.moves (h.inBounds.takes ht ?_)
      intro j hj
      rcases hok i (by rw [henv]; exact hstart) with hend | hwrap | ⟨k, hk, hused⟩
      · -- the block ends inside the range
        rcases Nat.lt_or_ge (i + rsize.toNat) (2 ^ 32) with hlt | hge
        · rw [blockFrom_of_lt hlt] at hj
          have := List.mem_range'_1.mp hj
          omega
        · rw [blockFrom_of_le hi rsize.toNat_lt hge] at hj
          exact absurd hj (by simp)
      · rw [blockFrom_of_le hi rsize.toNat_lt hwrap] at hj
        exact absurd hj (by simp)
      · exact absurd hused (hfree k hk)
  | freeBy t ot obid =>
    obtain rfl := Option.some.inj hstep
    rcases freeBy_cases (Prod.mk.eta.symm) with ⟨-, heq⟩ | ⟨i, -, hf⟩
    · rw [heq]
      exact h
    · exact h.moves hf.moves (h.inBounds.frees hf)
  | freeAddrByOwner ot obid =>
    obtain rfl := Option.some.inj hstep
    obtain ⟨is, -, hf⟩ := freeAddrByOwner_cases (Prod.mk.eta.symm)
    exact h.moves hf.moves (h.inBounds.frees hf)
  | freeAddrByRange ot obid mac rsize =>
    obtain rfl := Option.some.inj hstep
    rcases freeAddrByRange_cases (Prod.mk.eta.symm) with ⟨-, heq⟩ | ⟨is, -, hf, -⟩
    · rw [heq]
      exact h
    · exact h.moves hf.moves (h.inBounds.frees hf)
  | updateAttributes vup =>
    obtain rfl := Option.some.inj hstep
    have hr : Readable env'.inet ar.attr ar.type ar.size := by
      rw [hinet]
      exact h.readable
    have hup := (Prod.mk.eta (p := ar.updateAttributes env' vup)).symm
    refine ⟨?_, h.inBounds.updated (updateAttributes_cases hup).1⟩
    have hr' := readable_updateAttributes hr hup
    rw [hinet] at hr'
    exact hr'

end Bounds

/-- **Bounds of an internal range.**  From a range that `from_attr` accepts, in every run whose
operations meet `BoundOk`, every index in use is below the size, and the range that is written to
the database is loaded with the same leases. -/
theorem inside_of_boundOk {env : ArEnv} {vattr : VectorAttribute} {id : ℕ} {ar₀ ar : AddressRange}
    (hid : id < 2 ^ 32) (hstart : (new id false).fromAttr env vattr = (ar₀, none))
    (hrun : Reach (stepIn env.inet) (BoundOk env.inet) ar₀ ar) :
    (∀ l ∈ ar.allocated, l.1 < ar.size) ∧ Loads env.inet ar := by
  obtain ⟨hreadable, hnone, -, -⟩ := readable_fromAttr hid hstart
  have hinit : Bounded env.inet ar₀ := by
    refine ⟨hreadable, ?_, ?_⟩
    · rw [hnone]
      exact fun l hl => absurd hl (Finset.notMem_empty l)
    · rw [hnone]
      exact fun l hl => absurd hl (Finset.notMem_empty l)
  have hb : Bounded env.inet ar := hrun.inv hinit (fun _ _ _ hs hok hstep => hs.step hok hstep)
  exact ⟨hb.inBounds.lt_size, loads_of_readable hb.readable hb.inBounds⟩

/-! ## Examples of runs -/

/-- The surroundings of a call without an IPAM driver and without IPv6 addresses. -/
def plainEnv : ArEnv := ⟨⟨fun _ => none, fun _ => []⟩, 0x0200, 0, 0, true, none, fun _ => true⟩

/-- A range of MAC addresses. -/
def etherAttr (size : Text) : VectorAttribute
  | .type => "ETHER".toList
  | .size => size
  | .mac => "02:00:c0:a8:00:01".toList
  | _ => []

def etherRange (size : Text) : AddressRange := ((new 0 false).fromAttr plainEnv (etherAttr size)).1

instance (inet : Inet6) (ar : AddressRange) (e : ArEnv × ArOp) : Decidable (BoundOk inet ar e) :=
  match e with
  | (_, .allocateAddr ..) => inferInstanceAs (Decidable (_ ∨ _))
  | (_, .reserveAddr ..) => inferInstanceAs (Decidable (_ ∨ _))
  | (env, .reserveAddrBy t _ rsize _) =>
    inferInstanceAs (Decidable (∀ i ∈ ar.startIndex { env with inet := inet } t,
      i + rsize.toNat ≤ ar.size ∨ 2 ^ 32 ≤ i + rsize.toNat ∨
        ∃ j ∈ blockFrom i rsize.toNat, j ∈ ar.usedIndexes))
  | (_, .allocateBy ..) | (_, .holdBy ..) | (_, .freeBy ..) | (_, .freeAddrByOwner ..)
  | (_, .freeAddrByRange ..) | (_, .updateAttributes ..) => inferInstanceAs (Decidable True)

/-- A lease, a hold, two reservations, a release, a smaller size and a lease again. -/
def insideRun : List (ArEnv × ArOp) :=
  [(plainEnv, .allocateAddr .vm 5 [] (fun _ => [])),
    (plainEnv, .holdBy (.mac "02:00:c0:a8:00:02".toList)),
    (plainEnv, .reserveAddrBy (.mac "02:00:c0:a8:00:03".toList) 7 2 (new 1 false)),
    (plainEnv, .reserveAddr 8 2 (new 1 false)),
    (plainEnv, .freeBy (.mac "02:00:c0:a8:00:01".toList) .vm 5),
    (plainEnv, .updateAttributes (etherAttr "6".toList)),
    (plainEnv, .allocateAddr .vm 6 [] (fun _ => []))]

theorem inside_insideRun :
    ∃ ar, Reach (stepIn plainEnv.inet) (BoundOk plainEnv.inet) (etherRange "8".toList) ar ∧
      ar.size = 6 ∧ ar.usedIndexes = {0, 1, 2, 3, 4, 5} ∧
      (∀ l ∈ ar.allocated, l.1 < ar.size) ∧ Loads plainEnv.inet ar := by
  have hrun : ((runChecked (stepIn plainEnv.inet) (BoundOk plainEnv.inet) (etherRange "8".toList)
      insideRun).map (fun ar => (ar.size, ar.usedIndexes))) = some (6, {0, 1, 2, 3, 4, 5}) := by
    decide
  have hstart : ((new 0 false).fromAttr plainEnv (etherAttr "8".toList)).2 = none := by
    decide
  obtain ⟨ar, har, heq⟩ := Option.map_eq_some_iff.mp hrun
  obtain ⟨hsize, hused⟩ := Prod.mk.inj heq
  have hreach := reach_of_runChecked _ har
  exact ⟨ar, hreach, hsize, hused,
    inside_of_boundOk (by norm_num) (Prod.ext rfl hstart) hreach⟩

/-- A reservation of two addresses in a range of one address. -/
theorem outside_after_reserveAddrBy :
    ¬ ∀ (vattr : VectorAttribute) (ar₀ ar : AddressRange),
      (new 0 false).fromAttr plainEnv vattr = (ar₀, none) → Run (stepIn plainEnv.inet) ar₀ ar →
      ∀ l ∈ ar.allocated, l.1 < ar.size := by
  intro h
  have hstart : ((new 0 false).fromAttr plainEnv (etherAttr "1".toList)).2 = none := by
    decide
  have hrun : ((runEvents (stepIn plainEnv.inet) (etherRange "1".toList)
      [(plainEnv, .reserveAddrBy (.mac "02:00:c0:a8:00:01".toList) 7 2 (new 1 false))]).map
        (fun ar => (ar.size, decide ((1, packOwner .net 7) ∈ ar.allocated)))) = some (1, true) := by
    decide
  obtain ⟨ar, har, heq⟩ := Option.map_eq_some_iff.mp hrun
  obtain ⟨hsize, hmem⟩ := Prod.mk.inj heq
  have hlt := h _ _ ar (Prod.ext rfl hstart)
    (reach_of_runEvents (P := fun _ => True) _ (fun _ _ => trivial) har) _
    (of_decide_eq_true hmem)
  rw [hsize] at hlt
  exact absurd hlt (by decide)

end AddressRange
