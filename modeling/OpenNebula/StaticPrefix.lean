/-
# The default size of a static IPv6 range (`AddressRange::init_ipv6_static`)

A static IPv6 range that comes without a `SIZE` goes to the end of its prefix.  The size is counted
with 64 bits, so a prefix of 64 bits or less gets `2 ^ 64 - 1` less the low half of the base address,
and a longer one gets all the addresses of the prefix that are not before the base.

The length of the prefix is any `int` that can be read.  Beyond 128 the shift of the source has a
negative count, of which the processor takes the low six bits, and the range gets a size although no
address but the base has the same 128 bits (`defaultSize_iff`).
-/
import OpenNebula.AddressBounds

/-! ## Addresses as numbers -/

namespace Ip6

/-- The low half of an address. -/
def low (a : Ip6) : ℕ := a.w1.toNat * 2 ^ 32 + a.w0.toNat

/-- The high half of an address. -/
def high (a : Ip6) : ℕ := a.w3.toNat * 2 ^ 32 + a.w2.toNat

/-- An address as a number of 128 bits. -/
def toNat (a : Ip6) : ℕ := a.high * 2 ^ 64 + a.low

theorem low_lt (a : Ip6) : a.low < 2 ^ 64 := by
  have h0 := a.w0.toNat_lt
  have h1 := a.w1.toNat_lt
  rw [low]
  omega

end Ip6

namespace AddressRange

/-- The last address of a range of a given size, as an integer. -/
def lastAddress (base : Ip6) (size : ℕ) : ℤ := base.toNat + size - 1

/-- The leading `pl` bits of a number of 128 bits; from 128 on, all of them. -/
def leadingBits (pl : ℤ) (a : ℤ) : ℤ := a / 2 ^ (128 - pl).toNat

/-- The last number with the leading `pl` bits of `a`. -/
def lastOfPrefix (pl : ℤ) (a : ℤ) : ℤ :=
  leadingBits pl a * 2 ^ (128 - pl).toNat + (2 ^ (128 - pl).toNat - 1)

/-- The last address of the range is in the prefix of its base, and for a prefix of 65 to 128 bits it
is the last one there. -/
def EndsInPrefix (pl : ℤ) (base : Ip6) (size : ℕ) : Prop :=
  leadingBits pl (lastAddress base size) = leadingBits pl base.toNat ∧
    (65 ≤ pl → pl ≤ 128 → lastAddress base size = lastOfPrefix pl base.toNat)

/-- The number of bits that `1UL << (128 - pl)` shifts by. -/
def shiftCount (pl : ℤ) : ℕ := ((128 - pl) % 64).toNat

/-! ## The size -/

theorem shiftCount_lt (pl : ℤ) : shiftCount pl < 64 := by
  rw [shiftCount]
  omega

/-- A prefix of at most 64 bits. -/
theorem sizeOfPrefix_short {pl : ℤ} (h : pl ≤ 64) (base : Ip6) :
    sizeOfPrefix pl base = 2 ^ 64 - 1 - base.low := by
  have hlow := base.low_lt
  rw [sizeOfPrefix, if_pos h, if_pos h, Nat.and_two_pow_sub_one_eq_mod]
  rw [← Ip6.low, Nat.mod_eq_of_lt hlow]
  omega

/-- A prefix of more than 64 bits. -/
theorem sizeOfPrefix_long {pl : ℤ} (h : 64 < pl) (base : Ip6) :
    sizeOfPrefix pl base = 2 ^ shiftCount pl - base.low % 2 ^ shiftCount pl := by
  have hshift : 2 ^ shiftCount pl < 2 ^ 64 :=
    Nat.pow_lt_pow_right (by norm_num) (shiftCount_lt pl)
  have hmod : base.low % 2 ^ shiftCount pl < 2 ^ shiftCount pl := Nat.mod_lt _ (by positivity)
  rw [sizeOfPrefix, if_neg (by omega), if_neg (by omega), ← shiftCount,
    Nat.and_two_pow_sub_one_eq_mod, ← Ip6.low]
  omega

theorem sizeOfPrefix_lt (pl : ℤ) (base : Ip6) : sizeOfPrefix pl base < 2 ^ 64 :=
  Nat.mod_lt _ (by norm_num)

/-- A power of two that divides the high half. -/
theorem toNat_mod {n : ℕ} (h : n ≤ 64) (base : Ip6) :
    base.toNat % 2 ^ n = base.low % 2 ^ n := by
  obtain ⟨k, hk⟩ : ∃ k, 2 ^ 64 = 2 ^ n * k := ⟨2 ^ (64 - n), by rw [← pow_add]; congr 1; omega⟩
  rw [Ip6.toNat, hk, mul_left_comm, Nat.add_comm, Nat.add_mul_mod_self_left]

/-- **Up to 64 bits**, the last address but one of the 64-bit prefix. -/
theorem lastAddress_short {pl : ℤ} (h : pl ≤ 64) (base : Ip6) :
    lastAddress base (sizeOfPrefix pl base) = (base.high : ℤ) * 2 ^ 64 + (2 ^ 64 - 2) := by
  have hlow := base.low_lt
  rw [lastAddress, sizeOfPrefix_short h, Ip6.toNat]
  push_cast [show base.low ≤ 2 ^ 64 - 1 by omega]
  omega

/-- **Beyond 64 bits**, the last address that differs from the base in the bits of the shift. -/
theorem lastAddress_long {pl : ℤ} (h : 64 < pl) (base : Ip6) :
    lastAddress base (sizeOfPrefix pl base) =
      (base.toNat : ℤ) / 2 ^ shiftCount pl * 2 ^ shiftCount pl + (2 ^ shiftCount pl - 1) := by
  have hmod : base.low % 2 ^ shiftCount pl < 2 ^ shiftCount pl := Nat.mod_lt _ (by positivity)
  have hdiv := Nat.div_add_mod base.toNat (2 ^ shiftCount pl)
  rw [toNat_mod (shiftCount_lt pl).le, mul_comm] at hdiv
  rw [lastAddress, sizeOfPrefix_long h]
  push_cast [hmod.le]
  have hdiv' : (base.toNat : ℤ) =
      (base.toNat : ℤ) / 2 ^ shiftCount pl * 2 ^ shiftCount pl +
        (base.low : ℤ) % 2 ^ shiftCount pl := by
    exact_mod_cast hdiv.symm
  omega

/-- The numbers of a block of a power of two have the same leading bits. -/
theorem block_ediv (q r : ℤ) (n : ℕ) (h0 : 0 ≤ r) (h : r < 2 ^ n) : (q * 2 ^ n + r) / 2 ^ n = q := by
  rw [Int.add_comm, Int.add_mul_ediv_right _ _ (by positivity), Int.ediv_eq_zero_of_lt h0 h, zero_add]

theorem leadingBits_short {pl : ℤ} (h : pl ≤ 64) (q r : ℤ) (h0 : 0 ≤ r) (hr : r < 2 ^ 64) :
    leadingBits pl (q * 2 ^ 64 + r) = q / 2 ^ (64 - pl).toNat := by
  rw [leadingBits, show (128 - pl).toNat = 64 + (64 - pl).toNat by omega, pow_add,
    ← Int.ediv_ediv_of_nonneg (by positivity), block_ediv q r 64 h0 hr]

/-- **Exactly when the default size ends in the prefix.** -/
theorem endsInPrefix_iff (pl : ℤ) (base : Ip6) :
    EndsInPrefix pl base (sizeOfPrefix pl base) ↔
      pl ≤ 128 ∨ base.low % 2 ^ shiftCount pl + 1 = 2 ^ shiftCount pl := by
  rcases le_or_gt pl 64 with hshort | hlong
  · -- the two addresses have the same high half
    refine iff_of_true ⟨?_, fun h65 _ => absurd h65 (by omega)⟩ (Or.inl (by omega))
    have hlow := base.low_lt
    have hbase : (base.toNat : ℤ) = (base.high : ℤ) * 2 ^ 64 + (base.low : ℤ) := by
      rw [Ip6.toNat]
      push_cast
      norm_num
    rw [lastAddress_short hshort, hbase, leadingBits_short hshort _ _ (by norm_num) (by norm_num),
      leadingBits_short hshort _ _ (by omega) (by omega)]
  rcases le_or_gt pl 128 with hfit | hbig
  · have hcount : shiftCount pl = (128 - pl).toNat := by
      rw [shiftCount]
      omega
    have hlast : lastAddress base (sizeOfPrefix pl base) = lastOfPrefix pl base.toNat := by
      rw [lastAddress_long hlong, lastOfPrefix, leadingBits, hcount]
    refine iff_of_true ⟨?_, fun _ _ => hlast⟩ (Or.inl hfit)
    have hpos : (0 : ℤ) < 2 ^ (128 - pl).toNat := by positivity
    rw [hlast, lastOfPrefix, leadingBits, block_ediv _ _ _ (by omega) (by omega)]
  · -- all the bits are leading ones, so the base has to be the only address
    have hall : ∀ a : ℤ, leadingBits pl a = a := by
      intro a
      rw [leadingBits, show (128 - pl).toNat = 0 by omega, pow_zero, Int.ediv_one]
    have hmod : base.low % 2 ^ shiftCount pl < 2 ^ shiftCount pl := Nat.mod_lt _ (by positivity)
    rw [EndsInPrefix, hall, hall, lastAddress, sizeOfPrefix_long hlong]
    constructor
    · rintro ⟨hbase, -⟩
      right
      push_cast [hmod.le] at hbase
      zify
      omega
    · rintro (hle | hlow)
      · exact absurd hle (by omega)
      · refine ⟨?_, fun _ hle => absurd hle (by omega)⟩
        rw [show 2 ^ shiftCount pl - base.low % 2 ^ shiftCount pl = 1 by omega]
        push_cast
        omega

/-! ## The start of a range -/

/-- What the stage of static IPv6 addresses leaves for a size that is not given. -/
theorem initIpv6Static_size {ar ar' : AddressRange} {env : ArEnv}
    (h : initIpv6Static env ar = (ar', none)) (htype : ar'.type.isIpv6Static = true)
    (hsize : ar.attr .size = []) :
    ∃ pl, ar.attr.intValue .prefixLength = some pl ∧
      env.inet.ip6ToI (ar.attr .ip6) = some ar'.ip6 ∧
      ar'.attr.unsignedValue .size 64 = some (sizeOfPrefix pl ar'.ip6) := by
  unfold initIpv6Static at h
  split at h
  · split at h
    · exact absurd (Prod.mk.inj h).2 (by simp)
    · rename_i ip6 hip6
      dsimp only at h
      split at h
      · exact absurd (Prod.mk.inj h).2 (by simp)
      · rename_i pl hpl
        rw [if_pos hsize] at h
        obtain ⟨rfl, -⟩ := Prod.mk.inj h
        exact ⟨pl, hpl, hip6, unsignedValue_toDigits _ _ (sizeOfPrefix_lt pl ip6)⟩
  · rename_i hother
    obtain ⟨rfl, -⟩ := Prod.mk.inj h
    exact absurd htype hother

theorem initMac_ip6 {ar ar' : AddressRange} {env : ArEnv} (h : initMac env ar = (ar', none)) :
    ar'.ip6 = ar.ip6 := by
  unfold initMac at h
  dsimp only at h
  split at h
  · obtain ⟨rfl, -⟩ := Prod.mk.inj h
    rfl
  · split at h
    · obtain ⟨rfl, -⟩ := Prod.mk.inj h
      rfl
    · split at h
      · obtain ⟨rfl, -⟩ := Prod.mk.inj h
        rfl
      · exact absurd (Prod.mk.inj h).2 (by simp)

theorem initSize_size {ar ar' : AddressRange} (h : initSize ar = (ar', none)) :
    ar'.ip6 = ar.ip6 ∧ ar'.type = ar.type ∧ ar.attr.unsignedValue .size 64 = some ar'.size := by
  unfold initSize at h
  split at h
  · exact absurd (Prod.mk.inj h).2 (by simp)
  · rename_i size hsize
    obtain ⟨rfl, -⟩ := Prod.mk.inj h
    exact ⟨rfl, rfl, hsize⟩

theorem intValue_congr {va vb : VectorAttribute} {name : AttrName} (h : va name = vb name) :
    va.intValue name = vb.intValue name := by
  rw [VectorAttribute.intValue, VectorAttribute.intValue, h]

/-- The size that `from_attr` gives to a static IPv6 range without a `SIZE`. -/
theorem size_of_fromAttr {env : ArEnv} {vattr : VectorAttribute} {ar₀ ar : AddressRange}
    (h : ar₀.fromAttr env vattr = (ar, none)) (htype : ar.type.isIpv6Static = true)
    (hsize : vattr .size = []) :
    ∃ pl, vattr.intValue .prefixLength = some pl ∧
      env.inet.ip6ToI (vattr .ip6) = some ar.ip6 ∧ ar.size = sizeOfPrefix pl ar.ip6 := by
  unfold fromAttr at h
  obtain ⟨ar₅, h, h6⟩ := andThen_none h
  obtain ⟨ar₄, h, h5⟩ := andThen_none h
  obtain ⟨ar₃, h, h4⟩ := andThen_none h
  obtain ⟨ar₂, h, h3⟩ := andThen_none h
  obtain ⟨ar₁, h1, h2⟩ := andThen_none h
  obtain ⟨-, -, s1⟩ := initType_none h1
  obtain ⟨s2, -⟩ := initIpv4_none h2
  obtain ⟨s3, -, -⟩ := initIpv6_none h3
  obtain ⟨s5, -⟩ := initMac_none h5
  obtain ⟨hip6, htype6, hread⟩ := initSize_size h6
  have hbefore : ∀ name, name ∉ [AttrName.shared, .ip, .globalPrefix, .ulaPrefix] →
      ar₃.attr name = vattr name := by
    intro name hname
    simp only [List.mem_cons, List.not_mem_nil, or_false, not_or] at hname
    rw [s3.attr _ (by simp [hname]), s2.attr _ (by simp [hname]), s1.attr _ (by simp [hname])]
  obtain ⟨pl, hpl, hbase, hvalue⟩ := initIpv6Static_size h4
    (by rw [← s5.type, ← htype6]; exact htype) ((hbefore _ (by decide)).trans hsize)
  rw [intValue_congr (hbefore _ (by decide))] at hpl
  rw [hbefore _ (by decide)] at hbase
  rw [unsignedValue_congr (s5.attr _ (by decide)), hvalue, Option.some.injEq] at hread
  refine ⟨pl, hpl, ?_, ?_⟩
  · rw [hip6, initMac_ip6 h5]
    exact hbase
  · rw [hip6, initMac_ip6 h5]
    exact hread.symm

/-- **The default size of a static IPv6 range.** -/
theorem defaultSize_iff {env : ArEnv} {vattr : VectorAttribute} {ar₀ ar : AddressRange}
    (h : ar₀.fromAttr env vattr = (ar, none)) (htype : ar.type.isIpv6Static = true)
    (hsize : vattr .size = []) :
    ∃ pl, vattr.intValue .prefixLength = some pl ∧
      env.inet.ip6ToI (vattr .ip6) = some ar.ip6 ∧
      (EndsInPrefix pl ar.ip6 ar.size ↔
        pl ≤ 128 ∨ ar.ip6.low % 2 ^ shiftCount pl + 1 = 2 ^ shiftCount pl) := by
  obtain ⟨pl, hpl, hbase, hvalue⟩ := size_of_fromAttr h htype hsize
  refine ⟨pl, hpl, hbase, ?_⟩
  rw [hvalue]
  exact endsInPrefix_iff pl ar.ip6

/-! ## A prefix of 120 bits and one of 129 -/

/-- The surroundings of a call with an address of the documentation prefix. -/
def staticEnv : ArEnv :=
  { plainEnv with
    inet :=
      { pton := fun s => if s = "2001:db8::a".toList then some ⟨10, 0, 0, 0x20010db8⟩ else none
        ntop := fun _ => [] } }

/-- A static IPv6 range without a `SIZE`. -/
def staticAttr (pl : Text) : VectorAttribute
  | .type => "IP6_STATIC".toList
  | .ip6 => "2001:db8::a".toList
  | .prefixLength => pl
  | .mac => "02:00:c0:a8:00:01".toList
  | _ => []

def staticRange (pl : Text) : AddressRange := ((new 0 false).fromAttr staticEnv (staticAttr pl)).1

theorem defaultSize_staticRange :
    ∃ pl, (staticAttr "120".toList).intValue .prefixLength = some pl ∧
      staticEnv.inet.ip6ToI (staticAttr "120".toList .ip6) =
        some (staticRange "120".toList).ip6 ∧
      (EndsInPrefix pl (staticRange "120".toList).ip6 (staticRange "120".toList).size ↔
        pl ≤ 128 ∨ (staticRange "120".toList).ip6.low % 2 ^ shiftCount pl + 1 =
          2 ^ shiftCount pl) := by
  have hnone : ((new 0 false).fromAttr staticEnv (staticAttr "120".toList)).2 = none := by
    decide
  have hstart : (new 0 false).fromAttr staticEnv (staticAttr "120".toList) =
      (staticRange "120".toList, none) := Prod.ext rfl hnone
  have htype : (staticRange "120".toList).type.isIpv6Static = true := by decide
  exact defaultSize_iff hstart htype rfl

/-- A prefix of 129 bits is accepted, and the range gets `2 ^ 63` addresses less ten. -/
theorem not_endsInPrefix :
    ¬ ∀ (env : ArEnv) (vattr : VectorAttribute) (id : ℕ) (ar : AddressRange) (pl : ℤ),
      (new id false).fromAttr env vattr = (ar, none) → ar.type.isIpv6Static = true →
        vattr .size = [] → vattr.intValue .prefixLength = some pl →
          EndsInPrefix pl ar.ip6 ar.size := by
  intro h
  have hnone : ((new 0 false).fromAttr staticEnv (staticAttr "129".toList)).2 = none := by
    decide
  have hstart : (new 0 false).fromAttr staticEnv (staticAttr "129".toList) =
      (staticRange "129".toList, none) := Prod.ext rfl hnone
  have htype : (staticRange "129".toList).type.isIpv6Static = true := by decide
  have hpl : (staticAttr "129".toList).intValue .prefixLength = some 129 := by decide
  have hends := h staticEnv _ 0 (staticRange "129".toList) 129 hstart htype rfl hpl
  have hsize : (staticRange "129".toList).size = 2 ^ 63 - 10 := by decide
  have hip6 : (staticRange "129".toList).ip6 = ⟨10, 0, 0, 0x20010db8⟩ := by decide
  have hbits := hends.1
  rw [hsize, hip6] at hbits
  exact absurd hbits (by decide)

end AddressRange
