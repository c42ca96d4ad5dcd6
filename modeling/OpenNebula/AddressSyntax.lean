/-
# The texts that are read as addresses

`ip_to_i` and `mac_to_i` replace the separators by spaces and read numbers from a stream.  A stream
skips white space, so that empty groups are not seen: what makes the reading of an IPv4 address exact
is that it needs as many numbers as there are groups (`ipLoop_joined_iff`, `ipToI_some_iff`).

`mac_to_i` counts the colons and looks at nothing else: it does not see that an extraction has failed
or that a number is greater than `255`.  It is exact for the texts without five colons, which it
refuses or, if they are empty, reads as zero, and for six groups of one or two hexadecimal digits
(`macExact_iff`).
-/
import OpenNebula.AddressText

open TextNumber

/-! ## Groups and separators -/

/-- Some groups, each after a separator. -/
def joined (sep : Char) : List Text → Text
  | [] => []
  | g :: gs => sep :: (g ++ joined sep gs)

theorem intercalate_eq_joined (sep : Char) (g : Text) (gs : List Text) :
    List.intercalate [sep] (g :: gs) = g ++ joined sep gs := by
  induction gs generalizing g with
  | nil => simp [joined, List.intercalate]
  | cons g' gs ih =>
    have h := ih g'
    rw [List.intercalate] at h
    rw [List.intercalate, List.intersperse_cons_cons, List.flatten_cons, List.flatten_cons, h]
    rfl

/-- **A text is cut at its separators.** -/
theorem exists_groups (sep : Char) (s : Text) :
    ∃ g gs, s = g ++ joined sep gs ∧ gs.length = s.count sep ∧ ∀ g' ∈ g :: gs, sep ∉ g' := by
  induction s with
  | nil => exact ⟨[], [], rfl, rfl, by simp⟩
  | cons c s ih =>
    obtain ⟨g, gs, rfl, hlength, hsep⟩ := ih
    by_cases hc : c = sep
    · subst hc
      refine ⟨[], g :: gs, rfl, ?_, ?_⟩
      · rw [List.count_cons_self, List.length_cons, hlength]
      · intro g' hg'
        rcases List.mem_cons.mp hg' with rfl | hg'
        · exact List.not_mem_nil
        · exact hsep g' hg'
    · refine ⟨c :: g, gs, rfl, ?_, ?_⟩
      · rw [List.count_cons_of_ne hc, hlength]
      · intro g' hg'
        rcases List.mem_cons.mp hg' with rfl | hg'
        · rw [List.mem_cons, not_or]
          exact ⟨fun h => hc h.symm, hsep g List.mem_cons_self⟩
        · exact hsep g' (List.mem_cons_of_mem g hg')

theorem mem_joined {sep c : Char} {gs : List Text} (h : ∃ g ∈ gs, c ∈ g) : c ∈ joined sep gs := by
  induction gs with
  | nil =>
    obtain ⟨g, hg, -⟩ := h
    exact absurd hg List.not_mem_nil
  | cons g' gs ih =>
    obtain ⟨g, hg, hc⟩ := h
    rw [joined, List.mem_cons, List.mem_append]
    rcases List.mem_cons.mp hg with rfl | hg
    · exact Or.inr (Or.inl hc)
    · exact Or.inr (Or.inr (ih ⟨g, hg, hc⟩))

theorem of_mem_joined {sep c : Char} {gs : List Text} (h : c ∈ joined sep gs) :
    c = sep ∨ ∃ g ∈ gs, c ∈ g := by
  induction gs with
  | nil => exact absurd h List.not_mem_nil
  | cons g gs ih =>
    rw [joined, List.mem_cons, List.mem_append] at h
    rcases h with rfl | hc | hc
    · exact Or.inl rfl
    · exact Or.inr ⟨g, by simp, hc⟩
    · rcases ih hc with rfl | ⟨g', hg', hc'⟩
      · exact Or.inl rfl
      · exact Or.inr ⟨g', List.mem_cons_of_mem g hg', hc'⟩

theorem count_joined {sep : Char} {gs : List Text} (h : ∀ g ∈ gs, sep ∉ g) :
    (joined sep gs).count sep = gs.length := by
  induction gs with
  | nil => rfl
  | cons g gs ih =>
    rw [joined, List.count_cons_self, List.count_append, List.count_eq_zero.mpr (h g (by simp)),
      ih (fun g' hg' => h g' (List.mem_cons_of_mem g hg')), List.length_cons]
    omega

/-- The separators are replaced by spaces. -/
theorem map_joined {sep : Char} {gs : List Text} (h : ∀ g ∈ gs, sep ∉ g) :
    (joined sep gs).map (fun c => if c = sep then ' ' else c) = joined ' ' gs := by
  induction gs with
  | nil => rfl
  | cons g gs ih =>
    have hg : g.map (fun c => if c = sep then ' ' else c) = g := by
      apply map_separator
      rintro c hc rfl
      exact h g (by simp) hc
    rw [joined, joined, List.map_cons, List.map_append, if_pos rfl, hg,
      ih (fun g' hg' => h g' (List.mem_cons_of_mem g hg'))]

theorem stops_joined (gs : List Text) : Stops (joined ' ' gs) := by
  cases gs with
  | nil => exact Or.inl rfl
  | cons g gs => exact Or.inr ⟨_, rfl⟩

/-! ## IPv4 addresses -/

/-- A decimal number up to `255`, written with any number of digits. -/
def Octet (g : Text) : Prop := g ≠ [] ∧ (∀ c ∈ g, isDigitOf 10 c = true) ∧ valueOf 10 g ≤ 255

/-- The number with the given bytes, the highest first. -/
def bigEndian (bytes : List ℕ) : ℕ := bytes.foldl (fun v b => v * 256 + b) 0

/-- A group that is not empty is read as its value. -/
theorem ipLoop_group {g rest : Text} (hne : g ≠ []) (hdigits : ∀ c ∈ g, isDigitOf 10 c = true)
    (hrest : Stops rest) (n : ℕ) (ip : UInt32) :
    ipLoop (n + 1) ip (g ++ rest) =
      if 255 < valueOf 10 g then none
      else ipLoop n (ip * 256 + UInt32.ofNat (valueOf 10 g)) rest := by
  rw [ipLoop]
  by_cases hfit : valueOf 10 g < 2 ^ 32
  · rw [getUnsigned_digits hne hdigits (hrest.head 10) hfit]
    simp
  · -- an overflow gives the greatest value, and a failed stream
    obtain ⟨hsign, hdig⟩ := getDigits_digits hne hdigits (hrest.head 10)
    have hread : getUnsigned 10 32 (g ++ rest) = ⟨false, 2 ^ 32 - 1, rest⟩ := by
      unfold getUnsigned
      rw [hsign]
      simp only [hdig]
      rw [if_neg hfit]
    rw [hread, if_pos (Or.inl (by norm_num)), if_pos (by omega)]

/-- **Reading needs as many numbers as there are groups**, so no group is empty. -/
theorem ipLoop_joined_iff (gs : List Text) :
    ∀ {n : ℕ} {ip a : UInt32}, (∀ g ∈ gs, ∀ c ∈ g, isDigitOf 10 c = true) → gs.length ≤ n →
      (ipLoop n ip (joined ' ' gs) = some a ↔
        n = gs.length ∧ (∀ g ∈ gs, Octet g) ∧
          a = gs.foldl (fun ip g => ip * 256 + UInt32.ofNat (valueOf 10 g)) ip) := by
  induction gs with
  | nil =>
    intro n ip a _ _
    cases n with
    | zero => simp [ipLoop, eq_comm]
    | succ n => exact iff_of_false (by simp [ipLoop, joined, getUnsigned, getDigits, skipWs,
        takeSign, dropHex]) (fun h => absurd h.1 (by simp))
  | cons g gs ih =>
    intro n ip a hdigits hn
    have hrest : ∀ g' ∈ gs, ∀ c ∈ g', isDigitOf 10 c = true :=
      fun g' hg' => hdigits g' (List.mem_cons_of_mem g hg')
    rw [List.length_cons] at hn
    obtain ⟨m, rfl⟩ : ∃ m, n = m + 1 := ⟨n - 1, by omega⟩
    rw [joined, ipLoop_space]
    by_cases hne : g = []
    · -- one number too few is left
      subst hne
      rw [List.nil_append, ih hrest (by omega)]
      constructor
      · rintro ⟨hm, -, -⟩
        omega
      · rintro ⟨-, hoctet, -⟩
        exact absurd rfl (hoctet [] (by simp)).1
    · rw [ipLoop_group hne (hdigits g (by simp)) (stops_joined gs)]
      split
      · rename_i hbig
        refine iff_of_false (by simp) ?_
        rintro ⟨-, hoctet, -⟩
        have := (hoctet g (by simp)).2.2
        omega
      · rename_i hfit
        rw [ih hrest (by omega), List.length_cons, List.foldl_cons, List.forall_mem_cons]
        constructor
        · rintro ⟨hm, hoctet, ha⟩
          exact ⟨by omega, ⟨⟨hne, hdigits g (by simp), by omega⟩, hoctet⟩, ha⟩
        · rintro ⟨hm, ⟨-, hoctet⟩, ha⟩
          exact ⟨by omega, hoctet, ha⟩

theorem toNat_octets {gs : List Text} (hlength : gs.length = 4) (h : ∀ g ∈ gs, Octet g) :
    (gs.foldl (fun ip g => ip * 256 + UInt32.ofNat (valueOf 10 g)) (0 : UInt32)).toNat =
      bigEndian (gs.map (valueOf 10)) := by
  obtain ⟨g3, g2, g1, g0, rfl⟩ := List.length_eq_four.mp hlength
  have h3 := (h g3 (by simp)).2.2
  have h2 := (h g2 (by simp)).2.2
  have h1 := (h g1 (by simp)).2.2
  have h0 := (h g0 (by simp)).2.2
  simp only [bigEndian, List.map_cons, List.map_nil, List.foldl_cons, List.foldl_nil,
    UInt32.toNat_add, UInt32.toNat_mul, UInt32.toNat_ofNat', UInt32.reduceToNat]
  norm_num only
  omega

/-- What `ip_to_i` does with four groups of digits. -/
theorem ipToI_groups {g : Text} {gs : List Text} (hlength : gs.length = 3)
    (hdigits : ∀ g' ∈ g :: gs, ∀ c ∈ g', isDigitOf 10 c = true) :
    ipToI (g ++ joined '.' gs) = ipLoop 4 0 (joined ' ' (g :: gs)) := by
  have hdot : ∀ g' ∈ g :: gs, '.' ∉ g' := by
    intro g' hg' hc
    exact absurd (hdigits g' hg' _ hc) (by decide)
  have hrest : ∀ g' ∈ gs, '.' ∉ g' := fun g' hg' => hdot g' (List.mem_cons_of_mem g hg')
  have hany : (g ++ joined '.' gs).any (fun c => !(isDigitOf 10 c || c == '.')) = false := by
    rw [List.any_eq_false]
    intro c hc
    have hc' : c ∈ joined '.' (g :: gs) := List.mem_cons_of_mem _ hc
    rcases of_mem_joined hc' with rfl | ⟨g', hg', hmem⟩
    · simp
    · simp [hdigits g' hg' c hmem]
  have hcount : (g ++ joined '.' gs).count '.' = 3 := by
    rw [List.count_append, count_joined hrest, hlength, List.count_eq_zero.mpr (hdot g (by simp))]
  have hmap : g.map (fun c => if c = '.' then ' ' else c) = g := by
    apply map_separator
    rintro c hc rfl
    exact hdot g (by simp) hc
  rw [ipToI, hany, if_neg (by simp), if_neg (by simp [hcount]), List.map_append, hmap,
    map_joined hrest, joined, ipLoop_space]

/-- The characters of a text that `ip_to_i` reads. -/
theorem chars_of_ipToI {s : Text} {a : UInt32} (h : ipToI s = some a) :
    (∀ c ∈ s, isDigitOf 10 c = true ∨ c = '.') ∧ s.count '.' = 3 := by
  unfold ipToI at h
  split at h
  · exact absurd h (by simp)
  · rename_i hany
    split at h
    · exact absurd h (by simp)
    · rename_i hcount
      refine ⟨?_, not_not.mp hcount⟩
      intro c hc
      have hgood := List.any_eq_false.mp (Bool.not_eq_true _ ▸ hany) c hc
      simp only [Bool.not_eq_true', Bool.or_eq_false_iff, beq_eq_false_iff_ne, not_and_or,
        Bool.not_eq_false, not_not] at hgood
      exact hgood

/-- Four decimal numbers up to `255`, with a dot between each two. -/
def DottedQuad (s : Text) (gs : List Text) : Prop :=
  gs.length = 4 ∧ s = List.intercalate ['.'] gs ∧ ∀ g ∈ gs, Octet g

/-- **The IPv4 addresses that are read**: four decimal numbers up to `255`, separated by dots, and the
value is the number with these bytes. -/
theorem ipToI_some_iff (s : Text) (a : UInt32) :
    ipToI s = some a ↔
      ∃ gs, DottedQuad s gs ∧ a.toNat = bigEndian (gs.map (valueOf 10)) := by
  constructor
  · intro h
    obtain ⟨hchars, hcount⟩ := chars_of_ipToI h
    obtain ⟨g, gs, rfl, hlength, hdot⟩ := exists_groups '.' s
    rw [hcount] at hlength
    have hdigits : ∀ g' ∈ g :: gs, ∀ c ∈ g', isDigitOf 10 c = true := by
      intro g' hg' c hc
      have hmem : c ∈ g ++ joined '.' gs := by
        rcases List.mem_cons.mp hg' with rfl | hg'
        · exact List.mem_append_left _ hc
        · exact List.mem_append_right _ (mem_joined ⟨g', hg', hc⟩)
      rcases hchars c hmem with hdig | rfl
      · exact hdig
      · exact absurd hc (hdot g' hg')
    rw [ipToI_groups hlength hdigits, ipLoop_joined_iff _ hdigits (by simp [hlength])] at h
    obtain ⟨hfour, hoctet, rfl⟩ := h
    exact ⟨g :: gs, ⟨hfour.symm, (intercalate_eq_joined '.' g gs).symm, hoctet⟩,
      toNat_octets hfour.symm hoctet⟩
  · rintro ⟨gs, ⟨hlength, rfl, hoctet⟩, ha⟩
    obtain ⟨g, gs, rfl⟩ := List.exists_cons_of_length_pos (by omega : 0 < gs.length)
    have hdigits : ∀ g' ∈ g :: gs, ∀ c ∈ g', isDigitOf 10 c = true :=
      fun g' hg' => (hoctet g' hg').2.1
    rw [intercalate_eq_joined, ipToI_groups (by simpa using hlength) hdigits,
      ipLoop_joined_iff _ hdigits hlength.le]
    refine ⟨hlength.symm, hoctet, ?_⟩
    apply UInt32.toNat_inj.mp
    rw [ha, toNat_octets hlength hoctet]

/-- **The IPv4 codec is exact.** -/
theorem ipToI_exact :
    (∀ s : Text, (∃ a, ipToI s = some a) ↔ ∃ gs, DottedQuad s gs) ∧
    (∀ (s : Text) (a : UInt32), ipToI s = some a ↔
      ∃ gs, DottedQuad s gs ∧ a.toNat = bigEndian (gs.map (valueOf 10))) ∧
    ∀ a : UInt32, ipToI (ipToS a) = some a := by
  refine ⟨?_, ipToI_some_iff, ipToI_ipToS⟩
  intro s
  constructor
  · rintro ⟨a, ha⟩
    obtain ⟨gs, hquad, -⟩ := (ipToI_some_iff s a).mp ha
    exact ⟨gs, hquad⟩
  · rintro ⟨gs, hquad⟩
    exact ⟨_, (ipToI_some_iff s _).mpr ⟨gs, hquad, toNat_octets hquad.1 hquad.2.2⟩⟩

/-! ## MAC addresses -/

/-- Six groups of one or two hexadecimal digits, with a colon between each two. -/
def HexGroups (s : Text) (gs : List Text) : Prop :=
  gs.length = 6 ∧ s = List.intercalate [':'] gs ∧ ∀ g ∈ gs, HexGroup g

/-- The bytes of a MAC address, the first one of the text first. -/
def macBytes (m : Mac) : List ℕ :=
  [byteOf m.hi 1, byteOf m.hi 0, byteOf m.lo 3, byteOf m.lo 2, byteOf m.lo 1, byteOf m.lo 0]

/-- The text of a MAC address has its bytes, whatever the rest of its high word is. -/
theorem macToS_bytes (m : Mac) :
    macToS m = List.intercalate [':'] ((macBytes m).map hexByte) := macToS_eq m

/-- What a text that is read has to be, and the text of the result: the empty text is zero, and of
any other the six bytes are written again with two digits each. -/
def MacExact (junk : UInt32) (s : Text) : Prop :=
  ∀ m, macToI junk s = some m →
    (s = [] ∧ macToS m = zeroMac) ∨
      ∃ gs, HexGroups s gs ∧
        macToS m = List.intercalate [':'] (gs.map (fun g => hexByte (valueOf 16 g)))

/-- The bytes of the words that six bytes are read as. -/
theorem macBytes_words {v5 v4 v3 v2 v1 v0 : ℕ} (h5 : v5 < 256) (h4 : v4 < 256) (h3 : v3 < 256)
    (h2 : v2 < 256) (h1 : v1 < 256) (h0 : v0 < 256) :
    macBytes ⟨(((0 * 256 + UInt32.ofNat v3) * 256 + UInt32.ofNat v2) * 256 + UInt32.ofNat v1) * 256 +
      UInt32.ofNat v0, UInt32.ofNat v5 * 256 + UInt32.ofNat v4⟩ = [v5, v4, v3, v2, v1, v0] := by
  have hlo : ((((0 * 256 + UInt32.ofNat v3) * 256 + UInt32.ofNat v2) * 256 + UInt32.ofNat v1) * 256 +
      UInt32.ofNat v0).toNat = v3 * 256 ^ 3 + v2 * 256 ^ 2 + v1 * 256 + v0 := by
    simp only [UInt32.toNat_add, UInt32.toNat_mul, UInt32.toNat_ofNat', UInt32.reduceToNat]
    norm_num only
    omega
  have hhi : (UInt32.ofNat v5 * 256 + UInt32.ofNat v4).toNat = v5 * 256 + v4 := by
    simp only [UInt32.toNat_add, UInt32.toNat_mul, UInt32.toNat_ofNat', UInt32.reduceToNat]
    norm_num only
    omega
  simp only [macBytes, byteOf, hlo, hhi, List.cons.injEq, and_true]
  norm_num only
  omega

/-- **Six groups are read as their bytes.** -/
theorem macToI_hexGroups (junk : UInt32) {s : Text} {gs : List Text} (h : HexGroups s gs) :
    ∃ m, macToI junk s = some m ∧ macBytes m = gs.map (valueOf 16) := by
  obtain ⟨hlength, rfl, hgroups⟩ := h
  obtain ⟨g5, gs, rfl⟩ := List.exists_cons_of_length_eq_add_one hlength
  obtain ⟨g4, gs, rfl⟩ := List.exists_cons_of_length_eq_add_one (Nat.succ.inj hlength)
  obtain ⟨g3, g2, g1, g0, rfl⟩ := List.length_eq_four.mp (Nat.succ.inj (Nat.succ.inj hlength))
  have h5 := hgroups g5 (by simp)
  have h4 := hgroups g4 (by simp)
  have h3 := hgroups g3 (by simp)
  have h2 := hgroups g2 (by simp)
  have h1 := hgroups g1 (by simp)
  have h0 := hgroups g0 (by simp)
  have hcount := count_hexGroups h5 h4 h3 h2 h1 h0
  have hbytes := macBytes_words (valueOf_hexGroup h5) (valueOf_hexGroup h4) (valueOf_hexGroup h3)
    (valueOf_hexGroup h2) (valueOf_hexGroup h1) (valueOf_hexGroup h0)
  rw [← macWords_hexGroups h5 h4 h3 h2 h1 h0 junk] at hbytes
  unfold macToI
  split
  · rename_i hspecial
    refine ⟨⟨0, 0⟩, rfl, ?_⟩
    rcases hspecial with hnil | hzero
    · rw [hnil] at hcount
      exact absurd hcount (by simp)
    · -- the special case gives the words that would be read
      have hwords := macWords_macToS junk ⟨0, 0⟩
      rw [show macToS ⟨0, 0⟩ = zeroMac from if_pos ⟨rfl, rfl⟩] at hwords
      rw [hzero, hwords] at hbytes
      exact hbytes
  · rw [if_neg (not_not.mpr hcount)]
    exact ⟨_, rfl, hbytes⟩

/-- **When the reading of a text as a MAC address is exact.** -/
theorem macExact_iff (junk : UInt32) (s : Text) :
    MacExact junk s ↔ s.count ':' ≠ 5 ∨ ∃ gs, HexGroups s gs := by
  constructor
  · intro hexact
    by_cases hcount : s.count ':' = 5
    · right
      have hread : ∃ m, macToI junk s = some m := by
        unfold macToI
        split
        · exact ⟨_, rfl⟩
        · exact ⟨_, if_neg (not_not.mpr hcount)⟩
      obtain ⟨m, hm⟩ := hread
      rcases hexact m hm with ⟨rfl, -⟩ | ⟨gs, hgs, -⟩
      · exact absurd hcount (by simp)
      · exact ⟨gs, hgs⟩
    · exact Or.inl hcount
  · rintro (hcount | ⟨gs, hgs⟩) m hm
    · -- only the empty text is read
      by_cases hspecial : s = [] ∨ s = zeroMac
      · rw [macToI, if_pos hspecial, Option.some.injEq] at hm
        subst hm
        rcases hspecial with rfl | rfl
        · exact Or.inl ⟨rfl, if_pos ⟨rfl, rfl⟩⟩
        · exact absurd (by decide) hcount
      · rw [macToI, if_neg hspecial, if_pos hcount] at hm
        exact absurd hm (by simp)
    · right
      obtain ⟨m', hm', hbytes⟩ := macToI_hexGroups junk hgs
      rw [hm, Option.some.injEq] at hm'
      subst hm'
      refine ⟨gs, hgs, ?_⟩
      rw [macToS_bytes, hbytes, List.map_map]
      rfl

/-- **The MAC codec.**  Which texts are read exactly, and the round trip of the addresses of 48
bits. -/
theorem macToI_exact (junk : UInt32) :
    (∀ s : Text, MacExact junk s ↔ s.count ':' ≠ 5 ∨ ∃ gs, HexGroups s gs) ∧
      ∀ lo : UInt32, ∀ hi : UInt16,
        macToI junk (macToS ⟨lo, hi.toUInt32⟩) = some ⟨lo, hi.toUInt32⟩ := by
  refine ⟨macExact_iff junk, ?_⟩
  intro lo hi
  have hhi : hi.toUInt32 % 65536 = hi.toUInt32 := by
    apply UInt32.toNat_inj.mp
    have := hi.toNat_lt
    rw [UInt32.toNat_mod, UInt16.toNat_toUInt32]
    exact Nat.mod_eq_of_lt this
  rw [macToI_macToS, hhi]

/-- A text with a number that is not a byte and with a letter that is not a digit is read. -/
theorem not_macExact : ¬ ∀ (junk : UInt32) (s : Text), MacExact junk s := by
  intro h
  have hread : macToI 0 "2:0:0:0:1ff:zz".toList = some ⟨0x1ff00, 0x200⟩ := by decide +kernel
  rcases h 0 _ _ hread with ⟨hnil, -⟩ | ⟨gs, ⟨-, htext, hgroups⟩, -⟩
  · exact absurd hnil (by decide)
  · have hz : 'z' ∈ joined ':' gs := by
      cases gs with
      | nil => exact absurd htext (by decide)
      | cons g gs =>
        rw [intercalate_eq_joined] at htext
        rw [joined, ← htext]
        decide
    rcases of_mem_joined hz with hcolon | ⟨g, hg, hmem⟩
    · exact absurd hcolon (by decide)
    · exact absurd ((hgroups g hg).2 _ hmem) (by decide)
