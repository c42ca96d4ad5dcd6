/-
# Bitmaps with exceptions and reserved bits as text (`include/BitMap.h`)

`std::bitset` throws an exception for a position outside of the map.  `get` relies on it for the end of its
search, and `set` and `reset` catch it, but the test of a hint is outside of the `try`.  The reserved bits are
read from a text of numbers and ranges; a part of the text that has nothing but colons has no range, and its
first number is read past the end of an empty list.

`correct_iff` says that these are the only defects: for a hint in the map and a text without such parts a
bitmap gives out exactly what `BitMap.get` does, one free bit or nothing, and no operation throws.

An operation gives `none` when an exception leaves it, and the reader of the reserved bits when it reads
past the end of a list.
-/
import OpenNebula.BitMap
import OpenNebula.TextNumber

open TextNumber

namespace ReservedBits

/-! ## Operations with exceptions -/

/-- `bitset::test`. -/
def test (N : ℕ) (bs : Finset ℕ) (pos : ℕ) : Option Bool :=
  if pos < N then some (decide (pos ∈ bs)) else none

/-- `bitset::set`. -/
def setBit (N : ℕ) (bs : Finset ℕ) (pos : ℕ) : Option (Finset ℕ) :=
  if pos < N then some (insert pos bs) else none

/-- `bitset::reset`. -/
def resetBit (N : ℕ) (bs : Finset ℕ) (pos : ℕ) : Option (Finset ℕ) :=
  if pos < N then some (bs.erase pos) else none

/-- `try … catch (const std::out_of_range&)`. -/
def tryCatch {α : Type*} (body : Option α) (handler : α) : Option α := some (body.getD handler)

/-- An `int` as a position. -/
def position (bit : ℤ) : ℕ := (bit % 2 ^ 64).toNat

/-- The bit is neither set nor reserved. -/
def testFree (N : ℕ) (reserved bs : Finset ℕ) (bit : ℕ) : Option Bool := do
  let used ← test N bs bit
  if used then return false
  let isReserved ← test N reserved bit
  return !isReserved

theorem lt_of_testFree {N : ℕ} {reserved bs : Finset ℕ} {bit : ℕ} {b : Bool}
    (h : testFree N reserved bs bit = some b) : bit < N := by
  by_contra hlt
  rw [testFree, test, if_neg hlt] at h
  exact absurd h (Option.some_ne_none b).symm

/-- The loop of `get`: the result, the bit and the map. -/
def search (N : ℕ) (reserved bs : Finset ℕ) (bit : ℕ) : ℤ × ℕ × Finset ℕ :=
  match h : testFree N reserved bs bit with
  | none => (-1, bit, bs)
  | some true => (0, bit, insert bit bs)
  | some false => search N reserved bs (bit + 1)
termination_by N - bit
decreasing_by
  have hlt := lt_of_testFree h
  omega

/-- `BitMap::get`: the result, the bit and the map. -/
def get (N startBit : ℕ) (reserved bs : Finset ℕ) (hint : ℕ) : Option (ℤ × ℕ × Finset ℕ) := do
  if hint ≠ 0 then
    if ← testFree N reserved bs hint then
      return (0, hint, insert hint bs)
  return search N reserved bs startBit

/-- `BitMap::reset`. -/
def reset (N : ℕ) (bs : Finset ℕ) (bit : ℤ) : Option (Finset ℕ) :=
  tryCatch (resetBit N bs (position bit)) bs

/-- `BitMap::set`: the result and the map. -/
def set (N : ℕ) (bs : Finset ℕ) (bit : ℤ) : Option (ℤ × Finset ℕ) :=
  tryCatch (do
    if (← test N bs (position bit)) = false then
      return (0, ← setBit N bs (position bit))
    return (-1, bs)) (-1, bs)

/-! ## Reserved bits -/

/-- The first and the last number of a part; nothing for a part that is skipped. -/
def readRange (str : Text) : Option (Option (ℕ × ℕ)) :=
  let range := (str.splitOn ':').filter fun part => !part.isEmpty
  match range with
  | [] => none
  | part :: rest =>
    let start := getUnsigned 10 32 part
    if !start.ok then some none
    else
      match rest with
      | [] => some (some (start.value, start.value))
      | [part] =>
        let stop := getUnsigned 10 32 part
        if stop.ok then some (some (start.value, stop.value)) else some none
      | _ => some none

/-- `set_reserved_bit`. -/
def setReservedBit (N : ℕ) (reserved : Text) : Option (Finset ℕ) :=
  ((reserved.splitOn ',').filter fun str => !str.isEmpty).foldlM (fun bits str =>
    (readRange str).map fun
      | none => bits
      | some (start, stop) => bits ∪ Finset.Ico start (min (stop + 1) N)) ∅

/-! ## Giving out bits -/

variable {N startBit bit hint : ℕ} {bits bs : Finset ℕ} {reserved str : Text}

theorem testFree_eq : testFree N bits bs bit =
    if bit < N then some (decide (bit ∉ bs ∧ bit ∉ bits)) else none := by
  by_cases hlt : bit < N
  · simp only [testFree, test, if_pos hlt]
    by_cases hbs : bit ∈ bs
    · simp [hbs]
    · simp [hbs]
  · simp only [testFree, test, if_neg hlt]
    rfl

/-- The result of `get`, from a free bit or none. -/
def result (N startBit : ℕ) (bs : Finset ℕ) : Option (ℕ × Finset ℕ) → ℤ × ℕ × Finset ℕ
  | some (bit, bs') => (0, bit, bs')
  | none => (-1, max startBit N, bs)

/-- The bits from the first one on. -/
theorem range'_of_lt (h : bit < N) :
    List.range' bit (N - bit) = bit :: List.range' (bit + 1) (N - (bit + 1)) := by
  rw [show N - bit = N - (bit + 1) + 1 by omega, List.range'_succ]

theorem search_unfold (bit : ℕ) : search N bits bs bit =
    match testFree N bits bs bit with
    | none => (-1, bit, bs)
    | some true => (0, bit, insert bit bs)
    | some false => search N bits bs (bit + 1) := by
  rw [search]
  split <;> rename_i htest <;> rw [htest]

/-- **The loop of `get`** ends at the first free bit, or by the exception behind the last bit. -/
theorem search_eq (bit : ℕ) : search N bits bs bit =
    result N bit bs ((BitMap.search N ⟨bit, bits⟩ bs).map fun b => (b, insert b bs)) := by
  induction bit using search.induct N bits bs with
  | case1 bit hthrow =>
    have hlt : ¬ bit < N := by
      intro hlt
      rw [testFree_eq, if_pos hlt] at hthrow
      exact absurd hthrow (Option.some_ne_none _)
    rw [search_unfold, hthrow, BitMap.search, show N - bit = 0 by omega, List.range'_zero]
    dsimp only [List.find?_nil, Option.map_none, result]
    rw [max_eq_left (by omega)]
  | case2 bit hfree =>
    have hlt := lt_of_testFree hfree
    rw [search_unfold, hfree, BitMap.search, range'_of_lt hlt, List.find?_cons]
    rw [testFree_eq, if_pos hlt] at hfree
    rw [Option.some.inj hfree]
    rfl
  | case3 bit hused ih =>
    have hlt := lt_of_testFree hused
    rw [search_unfold, hused]
    dsimp only
    rw [ih, BitMap.search, BitMap.search, range'_of_lt hlt, List.find?_cons]
    rw [testFree_eq, if_pos hlt] at hused
    rw [Option.some.inj hused]
    dsimp only
    cases (List.range' (bit + 1) (N - (bit + 1))).find? fun b => b ∉ bs ∧ b ∉ bits with
    | none =>
      dsimp only [Option.map_none, result]
      rw [max_eq_right (by omega), max_eq_right (by omega)]
    | some b => rfl

/-- **`get`** with a hint in the map is the one without exceptions. -/
theorem get_eq (hhint : hint = 0 ∨ hint < N) :
    get N startBit bits bs hint =
      some (result N startBit bs (BitMap.get N ⟨startBit, bits⟩ bs hint)) := by
  unfold get BitMap.get
  by_cases hzero : hint = 0
  · rw [if_neg (not_not_intro hzero), if_neg (fun h => h.1 hzero), ← search_eq]
    rfl
  · have hlt := hhint.resolve_left hzero
    rw [if_pos hzero, testFree_eq, if_pos hlt]
    by_cases hfree : hint ∉ bs ∧ hint ∉ bits
    · rw [decide_eq_true hfree, if_pos ⟨hzero, hfree⟩]
      rfl
    · rw [decide_eq_false hfree, if_neg (fun h => hfree h.2), ← search_eq]
      rfl

/-- A hint outside of the map: the exception leaves `get`. -/
theorem get_eq_none (hzero : hint ≠ 0) (hhint : N ≤ hint) : get N startBit bits bs hint = none := by
  unfold get
  rw [if_pos hzero, testFree_eq, if_neg (not_lt.mpr hhint)]
  rfl

/-! ## Reading the reserved bits -/

/-- Nothing but separators has only empty parts. -/
theorem splitOn_all_nil (sep : Char) (t : Text) :
    (t.splitOn sep).filter (fun part => !part.isEmpty) = [] ↔ ∀ c ∈ t, c = sep := by
  rw [List.filter_eq_nil_iff]
  induction t with
  | nil => simp
  | cons c t ih =>
    rw [List.splitOn_cons_eq_if_modifyHead, List.forall_mem_cons]
    split
    · rename_i hc
      rw [List.forall_mem_cons, ih]
      exact and_congr (iff_of_true (by simp) (eq_of_beq hc)) Iff.rfl
    · rename_i hc
      obtain ⟨head, rest, hsplit⟩ := List.exists_cons_of_ne_nil (List.splitOn_ne_nil sep t)
      rw [hsplit]
      refine iff_of_false (fun h => ?_) (fun h => hc (beq_iff_eq.mpr h.1))
      exact absurd (h (c :: head) List.mem_cons_self) (by simp)

/-- **The range of a part** is read past the end of a list when the part has only colons. -/
theorem readRange_eq_none_iff : readRange str = none ↔ ∀ c ∈ str, c = ':' := by
  rw [← splitOn_all_nil]
  unfold readRange
  dsimp only
  split
  · rename_i hnil
    exact iff_of_true rfl hnil
  · rename_i part rest hcons
    refine iff_of_false ?_ (by rw [hcons]; exact List.cons_ne_nil part rest)
    split_ifs
    · exact not_false
    · split
      · exact Option.some_ne_none _
      · split_ifs
        · exact not_false
        · exact not_false
      · exact Option.some_ne_none _

/-- No part of the text has nothing but colons. -/
def RangesNamed (reserved : Text) : Prop :=
  ∀ str ∈ reserved.splitOn ',', str ≠ [] → ∃ c ∈ str, c ≠ ':'

/-- **The reserved bits** are read when every part has a range. -/
theorem isSome_setReservedBit : (setReservedBit N reserved).isSome ↔ RangesNamed reserved := by
  have hfold : ∀ (l : List Text) (bits : Finset ℕ),
      (l.foldlM (fun bits str => (readRange str).map fun
        | none => bits
        | some (start, stop) => bits ∪ Finset.Ico start (min (stop + 1) N)) bits).isSome ↔
        ∀ str ∈ l, readRange str ≠ none := by
    intro l
    induction l with
    | nil => exact fun bits => iff_of_true rfl fun str h => absurd h List.not_mem_nil
    | cons str l ih =>
      intro bits
      rw [List.foldlM_cons, List.forall_mem_cons]
      cases hread : readRange str with
      | none => exact iff_of_false Bool.false_ne_true fun h => h.1 rfl
      | some range =>
        rw [Option.map_some, Option.bind_eq_bind, Option.bind_some, ih]
        exact (and_iff_right (Option.some_ne_none range)).symm
  unfold setReservedBit RangesNamed
  rw [hfold]
  constructor
  · intro h str hstr hne
    have hread := h str (List.mem_filter.mpr ⟨hstr, by simpa using hne⟩)
    rw [ne_eq, readRange_eq_none_iff] at hread
    simpa using hread
  · intro h str hstr hread
    obtain ⟨hmem, hne⟩ := List.mem_filter.mp hstr
    obtain ⟨c, hc, hcolon⟩ := h str hmem (by simpa using hne)
    exact hcolon (readRange_eq_none_iff.mp hread c hc)

/-! ## Bitmaps -/

/-- The bit can be given out. -/
def Free (N : ℕ) (bits bs : Finset ℕ) (bit : ℕ) : Prop := bit < N ∧ bit ∉ bs ∧ bit ∉ bits

/-- What is expected of `get`: a free bit, and no other change of the map. -/
def GetsFree (N startBit : ℕ) (bits bs : Finset ℕ) (hint : ℕ) : Prop :=
  ∃ rc bit bs', get N startBit bits bs hint = some (rc, bit, bs') ∧
    (rc = 0 ↔ (hint ≠ 0 ∧ Free N bits bs hint) ∨ ∃ b, startBit ≤ b ∧ Free N bits bs b) ∧
    (rc = 0 → Free N bits bs bit ∧ bs' = insert bit bs) ∧ (rc ≠ 0 → rc = -1 ∧ bs' = bs)

/-- What is expected of a bitmap: the reserved bits are read, `get` gives out free bits, and no operation
throws. -/
def Correct (N startBit : ℕ) (reserved : Text) (bs : Finset ℕ) (hint : ℕ) : Prop :=
  (∃ bits, setReservedBit N reserved = some bits ∧ GetsFree N startBit bits bs hint) ∧
    ∀ bit : ℤ, (set N bs bit).isSome ∧ (reset N bs bit).isSome

/-- **A hint in the map**: `get` gives out a free bit if there is one. -/
theorem getsFree (hhint : hint = 0 ∨ hint < N) : GetsFree N startBit bits bs hint := by
  unfold GetsFree
  rw [get_eq hhint]
  cases hget : BitMap.get N ⟨startBit, bits⟩ bs hint with
  | none =>
    refine ⟨-1, max startBit N, bs, rfl, iff_of_false (by decide) ?_, fun h => absurd h (by decide),
      fun _ => ⟨rfl, rfl⟩⟩
    rintro (⟨hzero, -, hbs, hbits⟩ | ⟨b, hstart, hlt, hbs, hbits⟩)
    · rw [BitMap.get, if_pos ⟨hzero, hbs, hbits⟩] at hget
      exact absurd hget (Option.some_ne_none _)
    · rcases BitMap.get_eq_none hget hstart hlt with h | h
      · exact hbs h
      · exact hbits h
  | some r =>
    refine ⟨0, r.1, r.2, rfl, iff_of_true rfl ?_, fun _ => ?_, fun h => absurd rfl h⟩
    · unfold BitMap.get at hget
      split at hget
      · rename_i hfree
        exact Or.inl ⟨hfree.1, hhint.resolve_left hfree.1, hfree.2⟩
      · obtain ⟨b, hb, -⟩ := Option.map_eq_some_iff.mp hget
        obtain ⟨hbs, hbits, hstart, hlt⟩ := BitMap.search_spec hb
        exact Or.inr ⟨b, hstart, hlt, hbs, hbits⟩
    · unfold BitMap.get at hget
      split at hget
      · rename_i hfree
        rw [← Option.some.inj hget]
        exact ⟨⟨hhint.resolve_left hfree.1, hfree.2⟩, rfl⟩
      · obtain ⟨b, hb, hr⟩ := Option.map_eq_some_iff.mp hget
        obtain ⟨hbs, hbits, -, hlt⟩ := BitMap.search_spec hb
        rw [← hr]
        exact ⟨⟨hlt, hbs, hbits⟩, rfl⟩

/-- **Bitmaps are correct** exactly for a hint in the map, or none, and a text of reserved bits in which no
part has nothing but colons. -/
theorem correct_iff (N startBit : ℕ) (reserved : Text) (bs : Finset ℕ) (hint : ℕ) :
    Correct N startBit reserved bs hint ↔ (hint = 0 ∨ hint < N) ∧ RangesNamed reserved := by
  unfold Correct
  rw [← isSome_setReservedBit (N := N), Option.isSome_iff_exists]
  constructor
  · rintro ⟨⟨bits, hbits, rc, bit, bs', hget, -⟩, -⟩
    refine ⟨?_, bits, hbits⟩
    by_contra hhint
    rw [not_or, not_lt] at hhint
    rw [get_eq_none hhint.1 hhint.2] at hget
    exact absurd hget (Option.some_ne_none _).symm
  · rintro ⟨hhint, bits, hbits⟩
    exact ⟨⟨bits, hbits, getsFree hhint⟩, fun bit => ⟨rfl, rfl⟩⟩

/-- The VLAN bitmap with a hint that is behind its last bit, and with a range without numbers. -/
theorem not_correct :
    ¬ Correct 4096 2 "0, 1, 4095".toList ∅ 4096 ∧ ¬ Correct 4096 2 "0,:,4095".toList ∅ 0 := by
  refine ⟨fun h => ?_, fun h => ?_⟩
  · obtain ⟨⟨bits, -, rc, bit, bs', hget, -⟩, -⟩ := h
    rw [get_eq_none (by decide) le_rfl] at hget
    exact absurd hget (Option.some_ne_none _).symm
  · obtain ⟨⟨bits, hbits, -⟩, -⟩ := h
    have hnamed := isSome_setReservedBit.mp (Option.isSome_iff_exists.mpr ⟨bits, hbits⟩)
    obtain ⟨c, hc, hcolon⟩ := hnamed ":".toList (by decide) (by decide)
    exact hcolon (List.mem_singleton.mp hc)

end ReservedBits
