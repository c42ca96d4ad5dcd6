/-
# The texts of addresses

A MAC address is written with the six low bytes of its two words, so it is read back up to the upper
half of its high word; an IPv4 address is read back as it is.
-/
import OpenNebula.AddressRange

open TextNumber

/-! ## Bytes -/

theorem byteOf_lt (w : UInt32) (k : ℕ) : byteOf w k < 256 := Nat.mod_lt _ (by norm_num)

theorem hexByte_digits {b : ℕ} : ∀ c ∈ hexByte b, isDigitOf 16 c = true := by
  intro c hc
  simp only [hexByte, List.mem_cons, List.not_mem_nil, or_false] at hc
  rcases hc with rfl | rfl
  · exact isDigitOf_digitChar le_rfl (Nat.mod_lt _ (by norm_num))
  · exact isDigitOf_digitChar le_rfl (Nat.mod_lt _ (by norm_num))

theorem valueOf_hexByte {b : ℕ} (h : b < 256) : valueOf 16 (hexByte b) = b := by
  have h1 : digitValue (b / 16 % 16).digitChar = some (b / 16 % 16) :=
    digitValue_digitChar (Nat.mod_lt _ (by norm_num))
  have h0 : digitValue (b % 16).digitChar = some (b % 16) :=
    digitValue_digitChar (Nat.mod_lt _ (by norm_num))
  simp only [valueOf, hexByte, List.foldl_cons, List.foldl_nil, h1, h0, Option.getD_some]
  omega

/-- What may follow a number: a space, or the end of the text. -/
def Stops (rest : Text) : Prop := rest = [] ∨ ∃ t, rest = ' ' :: t

theorem Stops.head {rest : Text} (h : Stops rest) (base : ℕ) :
    ∀ c ∈ rest.head?, isDigitOf base c = false ∧ c ≠ 'x' ∧ c ≠ 'X' := by
  rcases h with rfl | ⟨t, rfl⟩
  · exact fun c hc => absurd hc (by simp)
  · intro c hc
    have hc' : ' ' = c := by simpa using hc
    subst hc'
    refine ⟨?_, by decide, by decide⟩
    rw [isDigitOf, show digitValue ' ' = none by decide]

theorem digit_lt {base : ℕ} {c : Char} (h : isDigitOf base c = true) :
    (digitValue c).getD 0 < base := by
  unfold isDigitOf at h
  split at h
  · rename_i d hd
    rw [hd, Option.getD_some]
    exact of_decide_eq_true h
  · exact absurd h (by simp)

/-- One or two hexadecimal digits. -/
def HexGroup (g : Text) : Prop :=
  (g.length = 1 ∨ g.length = 2) ∧ ∀ c ∈ g, isDigitOf 16 c = true

theorem hexGroup_hexByte (b : ℕ) : HexGroup (hexByte b) := ⟨Or.inr rfl, hexByte_digits⟩

theorem valueOf_hexGroup {g : Text} (h : HexGroup g) : valueOf 16 g < 256 := by
  obtain ⟨hlength, hdigits⟩ := h
  rcases hlength with hone | htwo
  · obtain ⟨c, rfl⟩ := List.length_eq_one_iff.mp hone
    have hc := digit_lt (hdigits c (by simp))
    simp only [valueOf, List.foldl_cons, List.foldl_nil]
    omega
  · obtain ⟨c, d, rfl⟩ := List.length_eq_two.mp htwo
    have hc := digit_lt (hdigits c (by simp))
    have hd := digit_lt (hdigits d (by simp))
    simp only [valueOf, List.foldl_cons, List.foldl_nil]
    omega

/-- A group is read as its byte. -/
theorem extract_hexGroup {g rest : Text} (h : HexGroup g) (hrest : Stops rest) (old : ℕ) :
    extract 16 32 old (some (g ++ rest)) = (valueOf 16 g, some rest) := by
  have hvalue := valueOf_hexGroup h
  obtain ⟨c, t, rfl⟩ : ∃ c t, g = c :: t := by
    apply List.exists_cons_of_ne_nil
    rintro rfl
    rcases h.1 with h | h <;> exact absurd h (by simp)
  have hskip : skipWs (c :: t ++ rest) ≠ [] := by
    intro hnil
    have hspace := (digit_cases (h.2 c (by simp))).1
    rw [List.dropWhile_eq_nil_iff.mp hnil c (by simp)] at hspace
    exact absurd hspace (by simp)
  have hget : getUnsigned 16 32 (c :: t ++ rest) = ⟨true, valueOf 16 (c :: t), rest⟩ :=
    getUnsigned_digits (List.cons_ne_nil c t) h.2 (hrest.head 16) (by omega)
  simp only [extract, if_neg hskip, hget, if_true]

theorem extract_space_hexGroup {g rest : Text} (h : HexGroup g) (hrest : Stops rest) (old : ℕ) :
    extract 16 32 old (some (' ' :: (g ++ rest))) = (valueOf 16 g, some rest) :=
  extract_hexGroup h hrest old

/-! ## MAC addresses -/

/-- The six bytes of a MAC address. -/
def macText (b5 b4 b3 b2 b1 b0 : ℕ) : Text :=
  List.intercalate [':'] [hexByte b5, hexByte b4, hexByte b3, hexByte b2, hexByte b1, hexByte b0]

theorem macToS_eq (m : Mac) :
    macToS m = macText (byteOf m.hi 1) (byteOf m.hi 0) (byteOf m.lo 3) (byteOf m.lo 2)
      (byteOf m.lo 1) (byteOf m.lo 0) := by
  unfold macToS
  split
  · rename_i hzero
    rw [hzero.1, hzero.2]
    decide +kernel
  · rfl

/-- A text without the separator is left as it is. -/
theorem map_separator {sep : Char} {s : Text} (h : ∀ c ∈ s, c ≠ sep) :
    s.map (fun c => if c = sep then ' ' else c) = s := by
  calc s.map (fun c => if c = sep then ' ' else c) = s.map (fun c => c) :=
        List.map_congr_left (fun c hc => if_neg (h c hc))
    _ = s := List.map_id' s

section Groups

variable {g5 g4 g3 g2 g1 g0 : Text} (h5 : HexGroup g5) (h4 : HexGroup g4) (h3 : HexGroup g3)
  (h2 : HexGroup g2) (h1 : HexGroup g1) (h0 : HexGroup g0)

theorem HexGroup.ne_colon {g : Text} (h : HexGroup g) : ∀ c ∈ g, c ≠ ':' := by
  rintro c hc rfl
  exact absurd (h.2 _ hc) (by decide)

include h5 h4 h3 h2 h1 h0

theorem hexGroups_spaced :
    (List.intercalate [':'] [g5, g4, g3, g2, g1, g0]).map (fun c => if c = ':' then ' ' else c) =
      g5 ++ ' ' :: (g4 ++ ' ' :: (g3 ++ ' ' :: (g2 ++ ' ' :: (g1 ++ ' ' :: (g0 ++ []))))) := by
  simp only [List.intercalate, List.intersperse_cons_cons, List.intersperse_singleton,
    List.flatten_cons, List.flatten_nil, List.map_append, map_separator h5.ne_colon,
    map_separator h4.ne_colon, map_separator h3.ne_colon, map_separator h2.ne_colon,
    map_separator h1.ne_colon, map_separator h0.ne_colon]
  simp

theorem count_hexGroups : (List.intercalate [':'] [g5, g4, g3, g2, g1, g0]).count ':' = 5 := by
  have hzero : ∀ g, HexGroup g → g.count ':' = 0 := by
    intro g hg
    rw [List.count_eq_zero]
    exact fun hc => hg.ne_colon ':' hc rfl
  simp [List.intercalate, List.count_append, hzero _ h5, hzero _ h4, hzero _ h3, hzero _ h2,
    hzero _ h1, hzero _ h0]

/-- The words that six groups are read as. -/
theorem macWords_hexGroups (junk : UInt32) :
    macWords junk (List.intercalate [':'] [g5, g4, g3, g2, g1, g0]) =
      ⟨(((0 * 256 + UInt32.ofNat (valueOf 16 g3)) * 256 + UInt32.ofNat (valueOf 16 g2)) * 256 +
          UInt32.ofNat (valueOf 16 g1)) * 256 + UInt32.ofNat (valueOf 16 g0),
        UInt32.ofNat (valueOf 16 g5) * 256 + UInt32.ofNat (valueOf 16 g4)⟩ := by
  have hspace : ∀ t, Stops (' ' :: t) := fun t => Or.inr ⟨t, rfl⟩
  unfold macWords
  rw [hexGroups_spaced h5 h4 h3 h2 h1 h0]
  simp only [extract_hexGroup h5 (hspace _), extract_space_hexGroup h4 (hspace _),
    extract_space_hexGroup h3 (hspace _), extract_space_hexGroup h2 (hspace _),
    extract_space_hexGroup h1 (hspace _), extract_space_hexGroup h0 (Or.inl rfl)]

end Groups

theorem count_macText (b5 b4 b3 b2 b1 b0 : ℕ) :
    (macText b5 b4 b3 b2 b1 b0).count ':' = 5 :=
  count_hexGroups (hexGroup_hexByte b5) (hexGroup_hexByte b4) (hexGroup_hexByte b3)
    (hexGroup_hexByte b2) (hexGroup_hexByte b1) (hexGroup_hexByte b0)

/-- The words that six bytes are read as. -/
theorem macWords_macText (junk : UInt32) {b5 b4 b3 b2 b1 b0 : ℕ} (h5 : b5 < 256) (h4 : b4 < 256)
    (h3 : b3 < 256) (h2 : b2 < 256) (h1 : b1 < 256) (h0 : b0 < 256) :
    macWords junk (macText b5 b4 b3 b2 b1 b0) =
      ⟨(((0 * 256 + UInt32.ofNat b3) * 256 + UInt32.ofNat b2) * 256 + UInt32.ofNat b1) * 256 +
        UInt32.ofNat b0, UInt32.ofNat b5 * 256 + UInt32.ofNat b4⟩ := by
  rw [macText, macWords_hexGroups (hexGroup_hexByte b5) (hexGroup_hexByte b4)
    (hexGroup_hexByte b3) (hexGroup_hexByte b2) (hexGroup_hexByte b1) (hexGroup_hexByte b0),
    valueOf_hexByte h5, valueOf_hexByte h4, valueOf_hexByte h3, valueOf_hexByte h2,
    valueOf_hexByte h1, valueOf_hexByte h0]

theorem macWords_macToS (junk : UInt32) (m : Mac) :
    macWords junk (macToS m) = ⟨m.lo, m.hi % 65536⟩ := by
  rw [macToS_eq, macWords_macText junk (byteOf_lt _ _) (byteOf_lt _ _) (byteOf_lt _ _)
    (byteOf_lt _ _) (byteOf_lt _ _) (byteOf_lt _ _), Mac.mk.injEq]
  have hlo := m.lo.toNat_lt
  have hhi := m.hi.toNat_lt
  constructor
  · apply UInt32.toNat_inj.mp
    simp only [byteOf, UInt32.toNat_add, UInt32.toNat_mul, UInt32.toNat_ofNat', UInt32.reduceToNat]
    norm_num only
    omega
  · apply UInt32.toNat_inj.mp
    simp only [byteOf, UInt32.toNat_add, UInt32.toNat_mul, UInt32.toNat_ofNat', UInt32.reduceToNat,
      UInt32.toNat_mod]
    norm_num only
    omega

/-- **A MAC address is read back**, up to the upper half of its high word, which is not written. -/
theorem macToI_macToS (junk : UInt32) (m : Mac) :
    macToI junk (macToS m) = some ⟨m.lo, m.hi % 65536⟩ := by
  have hcount : (macToS m).count ':' = 5 := by rw [macToS_eq, count_macText]
  unfold macToI
  split
  · rename_i hzero
    rcases hzero with hnil | hzero
    · rw [hnil] at hcount
      exact absurd hcount (by simp)
    · -- the text is that of the zero address, which is read as it is
      have hwords := macWords_macToS junk m
      have h0 : zeroMac = macToS ⟨0, 0⟩ := by decide +kernel
      rw [hzero, h0, macWords_macToS] at hwords
      rw [← hwords]
      rfl
  · rw [if_neg (by simp [hcount]), macWords_macToS]

/-! ## IPv4 addresses -/

theorem toDigits_ne_dot (n : ℕ) : ∀ c ∈ Nat.toDigits 10 n, c ≠ '.' := by
  rintro c hc rfl
  exact absurd (isDigitOf_toDigits (by norm_num) (by norm_num) n _ hc) (by decide)

theorem getUnsigned_toDigits {n width : ℕ} (h : n < 2 ^ width) {rest : Text} (hrest : Stops rest) :
    getUnsigned 10 width (Nat.toDigits 10 n ++ rest) = ⟨true, n, rest⟩ := by
  have hval : valueOf 10 (Nat.toDigits 10 n) = n := valueOf_toDigits (by norm_num) (by norm_num) n
  rw [getUnsigned_digits Nat.toDigits_ne_nil (isDigitOf_toDigits (by norm_num) (by norm_num) n)
    (hrest.head 10) (by rw [hval]; exact h), hval]

theorem ipLoop_byte {b : ℕ} (hb : b < 256) {rest : Text} (hrest : Stops rest) (n : ℕ)
    (ip : UInt32) :
    ipLoop (n + 1) ip (Nat.toDigits 10 b ++ rest) = ipLoop n (ip * 256 + UInt32.ofNat b) rest := by
  rw [ipLoop, getUnsigned_toDigits (by omega) hrest]
  rw [if_neg (by simp; omega)]

theorem ipLoop_space {n : ℕ} (ip : UInt32) (s : Text) :
    ipLoop (n + 1) ip (' ' :: s) = ipLoop (n + 1) ip s := rfl

/-- **An IPv4 address is read back.** -/
theorem ipToI_ipToS (ip : UInt32) : ipToI (ipToS ip) = some ip := by
  have hspace : ∀ t, Stops (' ' :: t) := fun t => Or.inr ⟨t, rfl⟩
  have hspaced : (ipToS ip).map (fun c => if c = '.' then ' ' else c) =
      Nat.toDigits 10 (byteOf ip 3) ++ ' ' :: (Nat.toDigits 10 (byteOf ip 2) ++ ' ' ::
        (Nat.toDigits 10 (byteOf ip 1) ++ ' ' :: (Nat.toDigits 10 (byteOf ip 0) ++ []))) := by
    simp only [ipToS, List.intercalate, List.intersperse_cons_cons, List.intersperse_singleton,
      List.flatten_cons, List.flatten_nil, List.map_append, map_separator (toDigits_ne_dot _)]
    simp
  have hcount : (ipToS ip).count '.' = 3 := by
    have hzero : ∀ n, (Nat.toDigits 10 n).count '.' = 0 := by
      intro n
      rw [List.count_eq_zero]
      exact fun hc => toDigits_ne_dot n '.' hc rfl
    simp [ipToS, List.intercalate, List.count_append, hzero]
  have hchars : (ipToS ip).any (fun c => !(isDigitOf 10 c || c == '.')) = false := by
    rw [List.any_eq_false]
    intro c hc
    have hdig : ∀ n, c ∈ Nat.toDigits 10 n → isDigitOf 10 c = true :=
      fun n => isDigitOf_toDigits (by norm_num) (by norm_num) n c
    simp only [ipToS, List.intercalate, List.intersperse_cons_cons, List.intersperse_singleton,
      List.flatten_cons, List.flatten_nil, List.append_nil, List.mem_append,
      List.mem_singleton] at hc
    rcases hc with hc | hc | hc | hc | hc | hc | hc
    all_goals first | simp [hdig _ hc] | simp [hc]
  unfold ipToI
  rw [hchars, if_neg (by simp), if_neg (by simp [hcount]), hspaced,
    ipLoop_byte (byteOf_lt _ _) (hspace _), ipLoop_space,
    ipLoop_byte (byteOf_lt _ _) (hspace _), ipLoop_space,
    ipLoop_byte (byteOf_lt _ _) (hspace _), ipLoop_space,
    ipLoop_byte (byteOf_lt _ _) (Or.inl rfl), ipLoop, Option.some.injEq]
  have hip := ip.toNat_lt
  apply UInt32.toNat_inj.mp
  simp only [byteOf, UInt32.toNat_add, UInt32.toNat_mul, UInt32.toNat_ofNat', UInt32.reduceToNat]
  norm_num only
  omega
