/-
# Index and address

An address of a range is found again by the text that was written for it, if the addition of the
index to the low word of the base address does not wrap around.  The lookups compare the low words,
so an address past the end of the word is refused; and a MAC address is written with 16 bits of its
high word only.  `NoWrap` is the exact condition.
-/
import OpenNebula.AddressText
import OpenNebula.AddressLeases

open TextNumber

/-- `inet_pton` reads back what `inet_ntop` has written. -/
def Inet6.Lawful (inet : Inet6) : Prop := ∀ a, inet.ip6ToI (inet.ntop a) = some a

namespace AddressRange

/-! ## Lookup of one address -/

theorem setMac_mac (ar : AddressRange) (i : ℕ) (nic : VectorAttribute) :
    ar.setMac i nic .mac = macToS ⟨ar.mac.lo + UInt32.ofNat i, ar.mac.hi⟩ :=
  VectorAttribute.replace_self _ _ _

theorem setIp_ip (ar : AddressRange) (i : ℕ) (nic : VectorAttribute) :
    ar.setIp i nic .ip = ipToS (ar.ip + UInt32.ofNat i) :=
  VectorAttribute.replace_self _ _ _

theorem setIp6Static_ip6 (ar : AddressRange) (env : ArEnv) (i : ℕ) (nic : VectorAttribute) :
    ar.setIp6Static env i nic .ip6 =
      env.inet.ntop { ar.ip6 with w0 := ar.ip6.w0 + UInt32.ofNat i } :=
  VectorAttribute.replace_self _ _ _

section Lookup

variable {ar : AddressRange} {env : ArEnv} {i : ℕ}

theorem word_sub (w : UInt32) (hi : i < 2 ^ 32) : (w + UInt32.ofNat i - w).toNat = i := by
  rw [add_sub_cancel_left, UInt32.toNat_ofNat', Nat.mod_eq_of_lt hi]

theorem word_lt (w : UInt32) (hi : i < 2 ^ 32) :
    w + UInt32.ofNat i < w ↔ 2 ^ 32 ≤ w.toNat + i := by
  have hw := w.toNat_lt
  rw [UInt32.lt_iff_toNat_lt, UInt32.toNat_add, UInt32.toNat_ofNat', Nat.mod_eq_of_lt hi]
  constructor
  · intro h
    by_contra hlt
    rw [Nat.mod_eq_of_lt (by omega)] at h
    omega
  · intro h
    rw [Nat.mod_eq_sub_mod h, Nat.mod_eq_of_lt (by omega)]
    omega

theorem checkIndex_of_lt (h : i < ar.size) : ar.checkIndex i false = some i := by
  unfold checkIndex
  rw [if_neg]
  simpa using h

theorem half_word (w : UInt32) : w % 65536 = w ↔ w.toNat < 2 ^ 16 := by
  rw [← UInt32.toNat_inj, UInt32.toNat_mod, show (65536 : UInt32).toNat = 2 ^ 16 from rfl]
  constructor
  · intro h
    rw [← h]
    exact Nat.mod_lt _ (by norm_num)
  · exact fun h => Nat.mod_eq_of_lt h

/-- A MAC address of the range is found again if and only if it is written in full and does not
wrap around. -/
theorem isValidMac_iff (hsize : i < ar.size) (hi : i < 2 ^ 32) (nic : VectorAttribute) :
    ar.isValidMac env (ar.setMac i nic .mac) false = some i ↔
      ar.mac.hi.toNat < 2 ^ 16 ∧ ar.mac.lo.toNat + i < 2 ^ 32 := by
  unfold isValidMac
  rw [setMac_mac, macToI_macToS]
  simp only [ne_eq, half_word, word_lt _ hi, word_sub _ hi]
  constructor
  · intro h
    split at h
    · exact absurd h (by simp)
    · omega
  · intro h
    rw [if_neg (by omega)]
    exact checkIndex_of_lt hsize

theorem isValidIp_iff (htype : ar.type.isIpv4 = true) (hsize : i < ar.size) (hi : i < 2 ^ 32)
    (nic : VectorAttribute) :
    ar.isValidIp (ar.setIp i nic .ip) false = some i ↔ ar.ip.toNat + i < 2 ^ 32 := by
  unfold isValidIp
  rw [if_pos htype, setIp_ip, ipToI_ipToS]
  simp only [word_lt _ hi, word_sub _ hi]
  constructor
  · intro h
    split at h
    · exact absurd h (by simp)
    · omega
  · intro h
    rw [if_neg (by omega)]
    exact checkIndex_of_lt hsize

theorem isValidIp6_iff (hlaw : env.inet.Lawful) (htype : ar.type.isIpv6Static = true)
    (hsize : i < ar.size) (hi : i < 2 ^ 32) (nic : VectorAttribute) :
    ar.isValidIp6 env (ar.setIp6Static env i nic .ip6) false = some i ↔
      ar.ip6.w0.toNat + i < 2 ^ 32 := by
  unfold isValidIp6
  rw [if_pos htype, setIp6Static_ip6, hlaw]
  simp only [ne_eq, not_true_eq_false, false_or, word_lt _ hi, word_sub _ hi]
  constructor
  · intro h
    split at h
    · exact absurd h (by simp)
    · omega
  · intro h
    rw [if_neg (by omega)]
    exact checkIndex_of_lt hsize

end Lookup

/-! ## The whole range -/

/-- Every index is found by each of the addresses that are written for it. -/
def Inverse (ar : AddressRange) (inet : Inet6) : Prop :=
  ∀ env : ArEnv, env.inet = inet → ∀ (nic : VectorAttribute) (i : ℕ), i < ar.size → i < 2 ^ 32 →
    ar.isValidMac env (ar.setMac i nic .mac) false = some i ∧
      (ar.type.isIpv4 = true → ar.isValidIp (ar.setIp i nic .ip) false = some i) ∧
      (ar.type.isIpv6Static = true →
        ar.isValidIp6 env (ar.setIp6Static env i nic .ip6) false = some i)

/-- No address of the range wraps around, and its MAC addresses fit in 48 bits. -/
def NoWrap (ar : AddressRange) : Prop :=
  ar.size = 0 ∨
    (ar.mac.hi.toNat < 2 ^ 16 ∧ ar.mac.lo.toNat + min ar.size (2 ^ 32) ≤ 2 ^ 32 ∧
      (ar.type.isIpv4 = true → ar.ip.toNat + min ar.size (2 ^ 32) ≤ 2 ^ 32) ∧
      (ar.type.isIpv6Static = true → ar.ip6.w0.toNat + min ar.size (2 ^ 32) ≤ 2 ^ 32))

theorem inverse_iff {ar : AddressRange} {inet : Inet6} (hlaw : inet.Lawful) :
    ar.Inverse inet ↔ ar.NoWrap := by
  constructor
  · intro h
    rcases Nat.eq_zero_or_pos ar.size with hzero | hpos
    · exact Or.inl hzero
    -- the last index decides
    obtain ⟨hmac, hip, hip6⟩ := h ⟨inet, 0, 0, 0, true, none, fun _ => true⟩ rfl (fun _ => [])
      (min ar.size (2 ^ 32) - 1) (by omega) (by omega)
    rw [isValidMac_iff (by omega) (by omega)] at hmac
    refine Or.inr ⟨hmac.1, by omega, ?_, ?_⟩
    · intro htype
      have := (isValidIp_iff htype (by omega) (by omega) _).mp (hip htype)
      omega
    · intro htype
      have := (isValidIp6_iff hlaw htype (by omega) (by omega) _).mp (hip6 htype)
      omega
  · rintro h env rfl nic i hsize hi
    rcases h with hzero | ⟨hhi, hmac, hip, hip6⟩
    · omega
    refine ⟨(isValidMac_iff hsize hi nic).mpr ⟨hhi, by omega⟩, ?_, ?_⟩
    · intro htype
      have := hip htype
      exact (isValidIp_iff htype hsize hi nic).mpr (by omega)
    · intro htype
      have := hip6 htype
      exact (isValidIp6_iff hlaw htype hsize hi nic).mpr (by omega)

/-! ## Release of a lease -/

section Release

variable {ar ar' : AddressRange} {env env' : ArEnv} {i : ℕ} {nic nic' : VectorAttribute}
  {ot : ObjectType} {obid : ℤ} {inherit : List AttrName}

theorem setPortRanges_of_ne (ar : AddressRange) (i : ℕ) (nic : VectorAttribute) {name : AttrName}
    (he : name ≠ .externalPortRange) (hi : name ≠ .internalPortRange) :
    ar.setPortRanges i nic name = nic name := by
  unfold setPortRanges
  split
  · rfl
  · dsimp only
    rw [VectorAttribute.replace_of_ne _ _ hi, VectorAttribute.replace_of_ne _ _ he]

theorem setIp6_of_ne (ar : AddressRange) (env : ArEnv) (i : ℕ) (nic : VectorAttribute)
    {name : AttrName} (hl : name ≠ .ip6Link) (hu : name ≠ .ip6Ula) (hg : name ≠ .ip6Global) :
    ar.setIp6 env i nic name = nic name := by
  have hul : ∀ (nic : VectorAttribute) (c : Prop) [Decidable c] (x : Text),
      (if c then nic.replace .ip6Ula x else nic) name = nic name := by
    intro nic c _ x
    split
    · rw [VectorAttribute.replace_of_ne _ _ hu]
    · rfl
  unfold setIp6
  split
  · rw [VectorAttribute.replace_of_ne _ _ hg, hul, VectorAttribute.replace_of_ne _ _ hl]
  · rw [hul, VectorAttribute.replace_of_ne _ _ hl]

/-- Nothing but the ports and the addresses is written for an interface. -/
theorem setAddresses_of_ne (ar : AddressRange) (env : ArEnv) (i : ℕ) (slaac : Bool)
    (nic : VectorAttribute) {name : AttrName}
    (h : name ∉ [AttrName.externalPortRange, .internalPortRange, .ip, .ip6Link, .ip6Ula, .ip6Global,
      .ip6]) : ar.setAddresses env i slaac nic name = nic name := by
  simp only [List.mem_cons, List.not_mem_nil, or_false, not_or] at h
  obtain ⟨he, hi, hip, hl, hu, hg, hip6⟩ := h
  unfold setAddresses
  have hports := ar.setPortRanges_of_ne i nic he hi
  have hv4 : (if ar.type.isIpv4 then ar.setIp i (ar.setPortRanges i nic)
      else ar.setPortRanges i nic) name = nic name := by
    split
    · exact (VectorAttribute.replace_of_ne _ _ hip).trans hports
    · exact hports
  have hslaac : ∀ nic' : VectorAttribute, nic' name = nic name →
      (if slaac && ar.type.isIpv6 then ar.setIp6 env i nic' else nic') name = nic name := by
    intro nic' hnic'
    split
    · exact (ar.setIp6_of_ne env i nic' hl hu hg).trans hnic'
    · exact hnic'
  split
  · exact (VectorAttribute.replace_of_ne _ _ hip6).trans (hslaac _ hv4)
  · exact hslaac _ hv4

/-- The addresses that are written for an interface. -/
theorem setAddresses_spec (ar : AddressRange) (env : ArEnv) (i : ℕ) (slaac : Bool)
    (nic : VectorAttribute) :
    ar.setAddresses env i slaac nic .mac = nic .mac ∧
      (ar.type.isIpv4 = true → ar.setAddresses env i slaac nic .ip = ar.setIp i nic .ip) ∧
      (ar.type.isIpv6Static = true →
        ar.setAddresses env i slaac nic .ip6 = ar.setIp6Static env i nic .ip6) := by
  refine ⟨ar.setAddresses_of_ne env i slaac nic (by decide), ?_, ?_⟩
  · intro htype
    have hslaac : ∀ nic' : VectorAttribute,
        (if slaac && ar.type.isIpv6 then ar.setIp6 env i nic' else nic') .ip = nic' .ip := by
      intro nic'
      split
      · exact ar.setIp6_of_ne env i nic' (by decide) (by decide) (by decide)
      · rfl
    unfold setAddresses
    rw [if_pos htype]
    split
    · rw [setIp6Static, VectorAttribute.replace_of_ne _ _ (by decide), hslaac, setIp_ip, setIp_ip]
    · rw [hslaac, setIp_ip, setIp_ip]
  · intro htype
    unfold setAddresses
    rw [if_pos htype, setIp6Static_ip6, setIp6Static_ip6]

/-- The attributes of the network do not replace an address. -/
theorem setVnet_of_ne (ar : AddressRange) (inherit : List AttrName) {nic : VectorAttribute}
    {name : AttrName} (hset : nic name ≠ [])
    (hname : name ∉ [AttrName.arId, .vnMad, .bridge, .phydev, .vlanId]) :
    ar.setVnet inherit nic name = nic name := by
  have hvnet : ∀ (l : List AttrName) (nic : VectorAttribute), name ∉ l →
      (l.foldl (fun nic n => if ar.attr n = [] then nic else nic.replace n (ar.attr n)) nic) name =
        nic name := by
    intro l
    induction l with
    | nil => exact fun _ _ => rfl
    | cons n l ih =>
      intro nic hn
      obtain ⟨hne, hl⟩ := not_or.mp (fun h => hn (List.mem_cons.mpr h))
      rw [List.foldl_cons, ih _ hl]
      split
      · rfl
      · exact VectorAttribute.replace_of_ne _ _ hne
  have hinherit : ∀ (l : List AttrName) (nic : VectorAttribute), nic name ≠ [] →
      (l.foldl (fun nic n =>
        if nic n = [] ∧ ar.attr n ≠ [] then nic.replace n (ar.attr n) else nic) nic) name =
        nic name := by
    intro l
    induction l with
    | nil => exact fun _ _ => rfl
    | cons n l ih =>
      intro nic hnic
      have hstep : (if nic n = [] ∧ ar.attr n ≠ [] then nic.replace n (ar.attr n) else nic) name =
          nic name := by
        split
        · rename_i hn
          refine VectorAttribute.replace_of_ne _ _ ?_
          rintro rfl
          exact hnic hn.1
        · rfl
      rw [List.foldl_cons, ih _ (by rw [hstep]; exact hnic), hstep]
  simp only [List.mem_cons, List.not_mem_nil, or_false, not_or] at hname
  have hvnet' := hvnet [.vnMad, .bridge, .phydev, .vlanId] (nic.replaceNat .arId ar.id)
    (by simp [hname])
  have harid : nic.replaceNat .arId ar.id name = nic name :=
    VectorAttribute.replace_of_ne _ _ hname.1
  unfold setVnet
  rw [hinherit, hvnet', harid]
  rw [hvnet', harid]
  exact hset

theorem macToS_ne_nil (m : Mac) : macToS m ≠ [] := by
  intro hnil
  have hcount := count_macText (byteOf m.hi 1) (byteOf m.hi 0) (byteOf m.lo 3) (byteOf m.lo 2)
    (byteOf m.lo 1) (byteOf m.lo 0)
  rw [← macToS_eq, hnil] at hcount
  exact absurd hcount (by simp)

theorem ipToS_ne_nil (ip : UInt32) : ipToS ip ≠ [] := by
  intro hnil
  have hread := ipToI_ipToS ip
  rw [hnil] at hread
  exact absurd hread (by simp [ipToI])

theorem ntop_ne_nil {inet : Inet6} (hlaw : inet.Lawful) (a : Ip6) : inet.ntop a ≠ [] := by
  intro hnil
  have hread := hlaw a
  rw [hnil] at hread
  exact absurd hread (by simp [Inet6.ip6ToI])

/-- The interface that `allocate_addr` fills in has the addresses of the index it has taken. -/
theorem allocateAddr_nic (hlaw : env.inet.Lawful)
    (h : ar.allocateAddr env ot obid inherit nic = (ar', some nic')) :
    ∃ i, Block ar i 1 ∧ Takes ar ar' (packOwner ot obid) [i] ∧
      nic' .mac = ar.setMac i nic .mac ∧
      (ar.type.isIpv4 = true → nic' .ip = ar.setIp i nic .ip) ∧
      (ar.type.isIpv6Static = true → nic' .ip6 = ar.setIp6Static env i nic .ip6) := by
  unfold allocateAddr at h
  split at h
  · exact absurd (Prod.mk.inj h).2 (by simp)
  · rename_i hnot
    obtain ⟨hshared, -⟩ := not_or.mp hnot
    split at h
    · exact absurd (Prod.mk.inj h).2 (by simp)
    · rename_i ar₁ i hget
      obtain ⟨hkeeps, hblock⟩ := getAddr_cases hget
      obtain ⟨rfl, hnic⟩ := Prod.mk.inj h
      rw [Option.some.injEq] at hnic
      refine ⟨i, hblock i rfl,
        takes_keeps hkeeps (takes_allocateByIndex ar₁ env i ot obid inherit nic), ?_⟩
      have hshared₁ : ar₁.shared = false := by
        rw [hkeeps.moves.shared]
        simpa using hshared
      obtain ⟨hmac, hip, hip6⟩ := ar₁.setAddresses_spec env i true (ar₁.setMac i nic)
      subst hnic
      simp only [hshared₁, Bool.false_eq_true, if_false]
      refine ⟨?_, ?_, ?_⟩
      · have hset : ar₁.setAddresses env i true (ar₁.setMac i nic) .mac ≠ [] := by
          rw [hmac, setMac_mac]
          exact macToS_ne_nil _
        rw [setVnet_of_ne ar₁ inherit hset (by decide), hmac, setMac_mac, setMac_mac,
          hkeeps.moves.mac]
      · intro htype
        rw [← hkeeps.moves.type] at htype
        have hset : ar₁.setAddresses env i true (ar₁.setMac i nic) .ip ≠ [] := by
          rw [hip htype, setIp_ip]
          exact ipToS_ne_nil _
        rw [setVnet_of_ne ar₁ inherit hset (by decide), hip htype, setIp_ip, setIp_ip,
          hkeeps.moves.ip]
      · intro htype
        rw [← hkeeps.moves.type] at htype
        have hset : ar₁.setAddresses env i true (ar₁.setMac i nic) .ip6 ≠ [] := by
          rw [hip6 htype, setIp6Static_ip6]
          exact ntop_ne_nil hlaw _
        rw [setVnet_of_ne ar₁ inherit hset (by decide), hip6 htype, setIp6Static_ip6,
          setIp6Static_ip6, hkeeps.moves.ip6]

/-- A lease that is there is freed. -/
theorem freeFound_true (hmem : (i, packOwner ot obid) ∈ ar.allocated)
    (hfree : ar.freeIndex env i = true) : (ar.freeFound env (some i) ot obid).2 = true := by
  unfold freeFound freeAllocated
  dsimp only
  rw [if_pos hfree, if_pos hmem]

end Release

/-- Every lease that `allocate_addr` hands out, whatever the range has handed out before, is
released with any of the addresses written in its interface. -/
def Releases (ar : AddressRange) (inet : Inet6) : Prop :=
  ∀ env env' : ArEnv, env.inet = inet → env'.inet = inet → (∀ i, env'.ipamFree i = true) →
    ∀ (allocated : Finset (ℕ × ℤ)) (next : UInt32), next.toNat < ar.size →
    ∀ (ot : ObjectType) (obid : ℤ) (inherit : List AttrName) (nic nic' : VectorAttribute)
      (ar' : AddressRange),
      { ar with allocated := allocated, next := next }.allocateAddr env ot obid inherit nic =
        (ar', some nic') →
      (ar'.freeAddr env' ot obid (nic' .mac)).2 = true ∧
        (ar.type.isIpv4 = true → (ar'.freeAddrByIp env' ot obid (nic' .ip)).2 = true) ∧
        (ar.type.isIpv6Static = true → (ar'.freeAddrByIp6 env' ot obid (nic' .ip6)).2 = true)

theorem releases_of_noWrap {ar : AddressRange} {inet : Inet6} (hlaw : inet.Lawful)
    (hwrap : ar.NoWrap) : ar.Releases inet := by
  intro env env' henv henv' hfree allocated next hnext ot obid inherit nic nic' ar' halloc
  rcases hwrap with hzero | ⟨-, hmac, hip, hip6⟩
  · omega
  obtain ⟨i, hblock, htakes, hnmac, hnip, hnip6⟩ := allocateAddr_nic (henv ▸ hlaw) halloc
  have hsize : i < ar.size := (hblock.bound (Or.inr (Or.inr hnext))).1
  have hi := hblock.lt_word
  have hmoves := htakes.moves
  have hsize' : i < ar'.size := by
    rw [hmoves.size]
    exact hsize
  have hmem : (i, packOwner ot obid) ∈ ar'.allocated := by
    rw [htakes.allocated]
    exact Finset.mem_union_right _ (mem_leasesOf.mpr ⟨List.mem_singleton_self i, rfl⟩)
  have hhook : ar'.freeIndex env' i = true := by
    unfold freeIndex
    rw [hfree i, Bool.or_true]
  refine ⟨?_, ?_, ?_⟩
  · have hread : macToI env'.junk (nic' .mac) =
        some ⟨ar.mac.lo + UInt32.ofNat i, ar.mac.hi % 65536⟩ := by
      rw [hnmac, setMac_mac, macToI_macToS]
    have hne : nic' .mac ≠ [] := by
      rw [hnmac, setMac_mac]
      exact macToS_ne_nil _
    have hlo : ar'.mac.lo = ar.mac.lo := by rw [hmoves.mac]
    unfold freeAddr
    rw [hread, Option.getD_some]
    dsimp only
    rw [hlo, word_sub _ hi, if_neg]
    · exact freeFound_true hmem hhook
    · rw [word_lt _ hi]
      simp only [hne, false_or, not_or]
      omega
  · intro htype
    have htype' : ar'.type.isIpv4 = true := by
      rw [hmoves.type]
      exact htype
    have hfound : ar'.isValidIp (nic' .ip) false = some i := by
      have hsame : nic' .ip = ar'.setIp i nic .ip := by
        rw [hnip htype, setIp_ip, setIp_ip, hmoves.ip]
      rw [hsame, isValidIp_iff htype' hsize' hi nic, hmoves.ip]
      have := hip htype
      show ar.ip.toNat + i < 2 ^ 32
      omega
    unfold freeAddrByIp
    rw [hfound]
    exact freeFound_true hmem hhook
  · intro htype
    have htype' : ar'.type.isIpv6Static = true := by
      rw [hmoves.type]
      exact htype
    have hfound : ar'.isValidIp6 env' (nic' .ip6) false = some i := by
      have hsame : nic' .ip6 = ar'.setIp6Static env' i nic .ip6 := by
        rw [hnip6 htype, setIp6Static_ip6, setIp6Static_ip6, hmoves.ip6, henv, henv']
      rw [hsame, isValidIp6_iff (henv' ▸ hlaw) htype' hsize' hi nic, hmoves.ip6]
      have := hip6 htype
      show ar.ip6.w0.toNat + i < 2 ^ 32
      omega
    unfold freeAddrByIp6
    rw [hfound]
    exact freeFound_true hmem hhook

/-- **Index and address are inverse** to each other, and every lease is released by the addresses of
its interface, if and only if the addresses of the range do not wrap around. -/
theorem inverse_and_releases_iff {inet : Inet6} (hlaw : inet.Lawful) (ar : AddressRange) :
    (ar.Inverse inet ∧ ar.Releases inet) ↔ ar.NoWrap := by
  constructor
  · exact fun h => (inverse_iff hlaw).mp h.1
  · exact fun h => ⟨(inverse_iff hlaw).mpr h, releases_of_noWrap hlaw h⟩

instance (ar : AddressRange) : Decidable ar.NoWrap :=
  inferInstanceAs (Decidable (_ ∨ _))

end AddressRange

/-! ## Examples of ranges -/

theorem valueOf_append (base : ℕ) (xs ys : Text) :
    valueOf base (xs ++ ys) = valueOf base xs * base ^ ys.length + valueOf base ys := by
  induction ys using List.reverseRecOn with
  | nil => simp [valueOf]
  | append_singleton ys c ih =>
    rw [← List.append_assoc, valueOf_concat, ih, valueOf_concat, List.length_append,
      List.length_singleton]
    ring

/-- A word of an IPv6 address with all its digits. -/
def wordText (w : UInt32) : Text :=
  hexByte (byteOf w 3) ++ hexByte (byteOf w 2) ++ [':'] ++ hexByte (byteOf w 1) ++
    hexByte (byteOf w 0)

/-- Conversions of IPv6 addresses that write and read all the digits of an address, as the C library
does for an address without small groups. -/
def fullInet : Inet6 where
  ntop := fun a => wordText a.w3 ++ [':'] ++ wordText a.w2 ++ [':'] ++ wordText a.w1 ++ [':'] ++
    wordText a.w0
  pton := fun s =>
    let ds := s.filter (· ≠ ':')
    let word := fun n => UInt32.ofNat (valueOf 16 ((ds.drop n).take 8))
    if ds.length = 32 then some ⟨word 24, word 16, word 8, word 0⟩ else none

theorem filter_wordText (w : UInt32) :
    (wordText w).filter (· ≠ ':') =
      hexByte (byteOf w 3) ++ hexByte (byteOf w 2) ++ hexByte (byteOf w 1) ++ hexByte (byteOf w 0) := by
  have hbyte : ∀ b, (hexByte b).filter (· ≠ ':') = hexByte b := by
    intro b
    rw [List.filter_eq_self]
    intro c hc
    simpa using (hexGroup_hexByte b).ne_colon c hc
  simp only [wordText, List.filter_append, hbyte]
  simp

theorem valueOf_word (w : UInt32) :
    UInt32.ofNat (valueOf 16 (hexByte (byteOf w 3) ++ hexByte (byteOf w 2) ++ hexByte (byteOf w 1) ++
      hexByte (byteOf w 0))) = w := by
  have hw := w.toNat_lt
  have hlen : ∀ b, (hexByte b).length = 2 := fun b => rfl
  rw [valueOf_append, valueOf_append, valueOf_append, valueOf_hexByte (byteOf_lt _ _),
    valueOf_hexByte (byteOf_lt _ _), valueOf_hexByte (byteOf_lt _ _),
    valueOf_hexByte (byteOf_lt _ _), hlen, hlen, hlen]
  apply UInt32.toNat_inj.mp
  rw [UInt32.toNat_ofNat']
  simp only [byteOf]
  norm_num only
  omega

theorem fullInet_lawful : fullInet.Lawful := by
  intro a
  have hne : fullInet.ntop a ≠ [] := by simp [fullInet, wordText, hexByte]
  have hds : (fullInet.ntop a).filter (· ≠ ':') = (wordText a.w3).filter (· ≠ ':') ++
      ((wordText a.w2).filter (· ≠ ':') ++ ((wordText a.w1).filter (· ≠ ':') ++
        (wordText a.w0).filter (· ≠ ':'))) := by
    simp [fullInet, List.filter_append]
  rw [Inet6.ip6ToI, if_neg hne]
  show (if ((fullInet.ntop a).filter (· ≠ ':')).length = 32 then some (⟨_, _, _, _⟩ : Ip6)
    else none) = some a
  simp only [hds, filter_wordText]
  -- each word is eight of the thirty-two digits
  refine (if_pos rfl).trans (congrArg some ?_)
  exact congr (congr (congr (congrArg Ip6.mk (valueOf_word a.w0)) (valueOf_word a.w1))
    (valueOf_word a.w2)) (valueOf_word a.w3)

/-- A static IPv6 range of 16 addresses. -/
def staticAttr : VectorAttribute
  | .type => "IP6_STATIC".toList
  | .ip6 => "2001:1db8:1111:2222:3333:4444:5555:6666".toList
  | .prefixLength => "64".toList
  | .size => "16".toList
  | .mac => "02:00:c0:a8:00:01".toList
  | _ => []

/-- The surroundings of a call without an IPAM driver. -/
def calmEnv (inet : Inet6) : ArEnv := ⟨inet, 0x0200, 0, 0, true, none, fun _ => true⟩

theorem inverse_and_releases_static :
    ∃ ar, (AddressRange.new 0 false).fromAttr (calmEnv fullInet) staticAttr = (ar, none) ∧
      ar.size = 16 ∧ ar.Inverse fullInet ∧ ar.Releases fullInet := by
  have hok : ((AddressRange.new 0 false).fromAttr (calmEnv fullInet) staticAttr).2 = none := by
    decide
  have hwrap : ((AddressRange.new 0 false).fromAttr (calmEnv fullInet) staticAttr).1.NoWrap := by
    decide
  have hsize : ((AddressRange.new 0 false).fromAttr (calmEnv fullInet) staticAttr).1.size = 16 := by
    decide
  exact ⟨_, Prod.ext rfl hok, hsize,
    (AddressRange.inverse_and_releases_iff fullInet_lawful _).mpr hwrap⟩

/-- A range of two MAC addresses at the top of the word. -/
def topAttr : VectorAttribute
  | .type => "ETHER".toList
  | .size => "2".toList
  | .mac => "02:00:ff:ff:ff:ff".toList
  | _ => []

/-- The second address of a range that `from_attr` accepts is not found again. -/
theorem wrapped_mac_not_found :
    ¬ ∀ (inet : Inet6), inet.Lawful → ∀ vattr : VectorAttribute,
      ((AddressRange.new 0 false).fromAttr (calmEnv inet) vattr).2 = none →
      ((AddressRange.new 0 false).fromAttr (calmEnv inet) vattr).1.Inverse inet := by
  intro h
  have hok : ((AddressRange.new 0 false).fromAttr (calmEnv fullInet) topAttr).2 = none := by
    decide
  have hfound := (h fullInet fullInet_lawful topAttr hok (calmEnv fullInet) rfl (fun _ => []) 1
    (by decide) (by norm_num)).1
  have hnone : ((AddressRange.new 0 false).fromAttr (calmEnv fullInet) topAttr).1.isValidMac
      (calmEnv fullInet) (((AddressRange.new 0 false).fromAttr (calmEnv fullInet) topAttr).1.setMac 1
        (fun _ => []) .mac) false = none := by
    decide
  rw [hnone] at hfound
  exact absurd hfound (by simp)
