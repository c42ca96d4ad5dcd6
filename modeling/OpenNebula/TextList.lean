/-
# Lists of numbers as text (`one_util::split_unique`, `one_util::join`)

A set of numbers is stored as a text with commas.  `splitUnique` reads such a text, with the rules of
the C++ streams for each part, and `joinIds` writes it.  `splitUnique_joinIds` says that a set of
32-bit numbers in increasing order is read back as it was written, `mem_splitUnique_joinIds` that no
other number is read, whatever the size of the numbers.
-/
import OpenNebula.TextNumber

open TextNumber

/-- `one_util::split_unique` for numbers. -/
def splitUnique (t : Text) : List ℤ :=
  (((t.splitOn ',').filter fun part => !part.isEmpty).filterMap fun part =>
    let e := getSigned 10 32 part
    if e.ok then some e.value else none).dedup.insertionSort (· ≤ ·)

/-- The text of a number. -/
def intText (n : ℤ) : Text :=
  if n < 0 then '-' :: Nat.toDigits 10 n.natAbs else Nat.toDigits 10 n.natAbs

/-- `one_util::join`. -/
def joinIds (ids : List ℤ) : Text := [','].intercalate (ids.map intText)

/-- The numbers of a 32-bit `int`. -/
def IsInt (n : ℤ) : Prop := -2 ^ 31 ≤ n ∧ n < 2 ^ 31

instance (n : ℤ) : Decidable (IsInt n) := inferInstanceAs (Decidable (_ ∧ _))

namespace TextList

/-! ## One number -/

theorem intText_natCast (n : ℕ) : intText n = Nat.toDigits 10 n := by
  rw [intText, if_neg (by omega), Int.natAbs_natCast]

theorem intText_ne_nil (n : ℤ) : intText n ≠ [] := by
  unfold intText
  split
  · exact List.cons_ne_nil _ _
  · exact Nat.toDigits_ne_nil

theorem toList_toString (n : ℤ) : (toString n).toList = intText n := by
  cases n with
  | ofNat m =>
    rw [intText, if_neg (by simp)]
    exact String.toList_ofList
  | negSucc m =>
    rw [intText, if_pos (Int.negSucc_lt_zero m)]
    show ("-" ++ Nat.repr (m + 1)).toList = _
    rw [String.toList_append]
    show ['-'] ++ (String.ofList (Nat.toDigits 10 (m + 1))).toList = _
    rw [String.toList_ofList]
    rfl

theorem intText_injective : Function.Injective intText := by
  intro m n h
  rw [← toList_toString, ← toList_toString] at h
  exact Int.repr_injective (String.toList_injective h)

theorem mem_intText {n : ℤ} {c : Char} (h : c ∈ intText n) : c = '-' ∨ isDigitOf 10 c = true := by
  have hdigit : c ∈ Nat.toDigits 10 n.natAbs → isDigitOf 10 c = true :=
    isDigitOf_toDigits (by norm_num) (by norm_num) n.natAbs c
  unfold intText at h
  split at h
  · rcases List.mem_cons.mp h with rfl | h
    · exact Or.inl rfl
    · exact Or.inr (hdigit h)
  · exact Or.inr (hdigit h)

theorem comma_notMem_intText (n : ℤ) : ',' ∉ intText n := by
  intro h
  rcases mem_intText h with h | h
  · exact absurd h (by decide)
  · exact absurd h (by decide)

/-- **A number of 32 bits is read back as it was written.** -/
theorem getSigned_intText {n : ℤ} (h : IsInt n) : getSigned 10 32 (intText n) = ⟨true, n, []⟩ := by
  have hval : valueOf 10 (Nat.toDigits 10 n.natAbs) = n.natAbs :=
    valueOf_toDigits (by norm_num) (by norm_num) _
  obtain ⟨hsign, hdigits⟩ := @getDigits_digits 10 (Nat.toDigits 10 n.natAbs) []
    Nat.toDigits_ne_nil (isDigitOf_toDigits (by norm_num) (by norm_num) _) (by simp)
  rw [List.append_nil] at hsign hdigits
  rw [hval] at hdigits
  obtain ⟨hlow, hhigh⟩ := h
  unfold intText
  by_cases hneg : n < 0
  · have hminus : takeSign (skipWs ('-' :: Nat.toDigits 10 n.natAbs)) =
        (true, Nat.toDigits 10 n.natAbs) := by
      rw [skipWs, List.dropWhile_cons_of_neg (by decide)]
      rfl
    rw [if_pos hneg]
    unfold getSigned
    rw [hminus]
    dsimp only
    rw [hdigits]
    dsimp only
    rw [if_pos rfl, if_pos (by omega)]
    congr 1
    omega
  · rw [if_neg hneg]
    unfold getSigned
    rw [hsign]
    dsimp only
    rw [hdigits]
    dsimp only
    rw [if_neg (by decide), if_pos (by omega)]
    congr 1
    omega

/-- A number that can be read back is the one that was written. -/
theorem getSigned_toDigits {n : ℕ} (h : (getSigned 10 32 (Nat.toDigits 10 n)).ok = true) :
    (getSigned 10 32 (Nat.toDigits 10 n)).value = n := by
  have hne : Nat.toDigits 10 n ≠ [] := Nat.toDigits_ne_nil
  obtain ⟨hsign, hdigits⟩ := @getDigits_digits 10 _ [] hne
    (isDigitOf_toDigits (by decide) (by decide) n) (by simp)
  rw [List.append_nil] at hsign hdigits
  unfold getSigned at h ⊢
  rw [hsign] at h ⊢
  dsimp only at h ⊢
  rw [hdigits] at h ⊢
  dsimp only at h ⊢
  rw [if_neg (by simp)] at h ⊢
  split_ifs at h ⊢
  rw [valueOf_toDigits (by decide) (by decide)]

/-! ## Lists -/

theorem splitUnique_nil : splitUnique [] = [] := by decide

theorem nodup_splitUnique (t : Text) : (splitUnique t).Nodup := by
  unfold splitUnique
  exact (List.perm_insertionSort _ _).nodup_iff.mpr (List.nodup_dedup _)

theorem sorted_splitUnique (t : Text) : (splitUnique t).Pairwise (· < ·) := by
  have hle : (splitUnique t).Pairwise (· ≤ ·) := List.pairwise_insertionSort (· ≤ ·) _
  exact (hle.and (nodup_splitUnique t)).imp fun h => lt_of_le_of_ne h.1 h.2

theorem mem_splitUnique {t : Text} {c : ℤ} : c ∈ splitUnique t ↔
    ∃ part ∈ t.splitOn ',', part ≠ [] ∧ (getSigned 10 32 part).ok = true ∧
      (getSigned 10 32 part).value = c := by
  unfold splitUnique
  rw [List.mem_insertionSort, List.mem_dedup, List.mem_filterMap]
  constructor
  · rintro ⟨part, hpart, hread⟩
    rw [List.mem_filter] at hpart
    dsimp only at hread
    split_ifs at hread with hok
    exact ⟨part, hpart.1, by simpa using hpart.2, hok, Option.some.inj hread⟩
  · rintro ⟨part, hpart, hne, hok, hvalue⟩
    refine ⟨part, List.mem_filter.mpr ⟨hpart, by simpa using hne⟩, ?_⟩
    dsimp only
    rw [if_pos hok, hvalue]

theorem splitOn_joinIds {ids : List ℤ} (hne : ids ≠ []) :
    (joinIds ids).splitOn ',' = ids.map intText := by
  refine List.splitOn_intercalate ',' ?_ (by simpa using hne)
  intro t ht
  obtain ⟨c, -, rfl⟩ := List.mem_map.mp ht
  exact comma_notMem_intText c

/-- **The numbers of a text that was written are the ones that were written.** -/
theorem mem_splitUnique_joinIds {ids : List ℤ} (hids : ∀ c ∈ ids, 0 ≤ c) {c : ℤ}
    (h : c ∈ splitUnique (joinIds ids)) : c ∈ ids := by
  by_cases hnil : ids = []
  · subst hnil
    rw [show joinIds [] = [] from rfl, splitUnique_nil] at h
    exact absurd h List.not_mem_nil
  · obtain ⟨part, hpart, -, hok, hvalue⟩ := mem_splitUnique.mp h
    rw [splitOn_joinIds hnil] at hpart
    obtain ⟨c', hc', rfl⟩ := List.mem_map.mp hpart
    obtain ⟨n, rfl⟩ := Int.eq_ofNat_of_zero_le (hids c' hc')
    rw [intText_natCast] at hok hvalue
    rw [← hvalue, getSigned_toDigits hok]
    exact hc'

/-- **A set of 32-bit numbers is read back as it was written.** -/
theorem splitUnique_joinIds {ids : List ℤ} (hsorted : ids.Pairwise (· < ·))
    (hint : ∀ c ∈ ids, IsInt c) : splitUnique (joinIds ids) = ids := by
  have hmem : ∀ c, c ∈ splitUnique (joinIds ids) ↔ c ∈ ids := by
    intro c
    by_cases hnil : ids = []
    · subst hnil
      rw [show joinIds [] = [] from rfl, splitUnique_nil]
    · rw [mem_splitUnique, splitOn_joinIds hnil]
      constructor
      · rintro ⟨part, hpart, -, -, hvalue⟩
        obtain ⟨c', hc', rfl⟩ := List.mem_map.mp hpart
        rw [getSigned_intText (hint c' hc')] at hvalue
        exact hvalue ▸ hc'
      · intro hc
        refine ⟨intText c, List.mem_map_of_mem hc, intText_ne_nil c, ?_, ?_⟩
        · rw [getSigned_intText (hint c hc)]
        · rw [getSigned_intText (hint c hc)]
  have hperm : (splitUnique (joinIds ids)).Perm ids :=
    (List.perm_ext_iff_of_nodup (nodup_splitUnique _) (hsorted.imp fun h => h.ne)).mpr hmem
  refine hperm.eq_of_pairwise ?_ (sorted_splitUnique _) hsorted
  intro a b _ _ hab hba
  exact absurd hba (asymm hab)

/-- A character of no piece and not of the separator is not in the joined text. -/
theorem notMem_intercalate {c : Char} {sep : Text} (hsep : c ∉ sep) (l : List Text)
    (hl : ∀ s ∈ l, c ∉ s) : c ∉ sep.intercalate l := by
  induction l with
  | nil => exact List.not_mem_nil
  | cons s l ih =>
    obtain ⟨hs, hrest⟩ := List.forall_mem_cons.mp hl
    cases l with
    | nil =>
      rw [List.intercalate_singleton]
      exact hs
    | cons s' l =>
      rw [List.intercalate_cons_cons]
      intro hmem
      rcases List.mem_append.mp hmem with hmem | hmem
      · rcases List.mem_append.mp hmem with hmem | hmem
        · exact hs hmem
        · exact hsep hmem
      · exact ih hrest hmem

end TextList
