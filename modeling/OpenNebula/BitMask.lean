/-
# Comparison under a mask

A word that packs several fields is compared with a pattern under a mask.  When the mask is made of
parts that do not overlap, the comparison splits into one for each part.  A part is a set of flags,
or the field of the low bits, which holds a narrow number.
-/
import Mathlib

namespace BitMask

variable {w n : ℕ}

/-- Two words have no common bit. -/
def Apart (a b : BitVec w) : Prop := a &&& b = 0

instance (a b : BitVec w) : Decidable (Apart a b) := inferInstanceAs (Decidable (_ = _))

/-- The bits of the flags `f` are all set in `x`. -/
def Has (x f : BitVec w) : Prop := x &&& f = f

instance (x f : BitVec w) : Decidable (Has x f) := inferInstanceAs (Decidable (_ = _))

theorem getElem_of_eq {x y : BitVec w} (h : x = y) (i : ℕ) (hi : i < w) : x[i] = y[i] := by rw [h]

theorem and_eq_of_and_or {a b u v x : BitVec w} (h : Apart a b) (hu : u &&& a = u)
    (hv : v &&& b = v) (hx : x &&& (a ||| b) = u ||| v) : x &&& a = u := by
  ext i hi
  have h1 := getElem_of_eq hx i hi
  have h2 := getElem_of_eq h i hi
  have h3 := getElem_of_eq hu i hi
  have h4 := getElem_of_eq hv i hi
  simp only [BitVec.getElem_and, BitVec.getElem_or, BitVec.ofNat_eq_ofNat,
    BitVec.getElem_zero] at h1 h2 h3 h4 ⊢
  grind

/-- **A comparison under two masks that do not overlap** is one comparison for each. -/
theorem and_or_eq_iff {a b u v x : BitVec w} (h : Apart a b) (hu : u &&& a = u)
    (hv : v &&& b = v) : x &&& (a ||| b) = u ||| v ↔ x &&& a = u ∧ x &&& b = v := by
  constructor
  · intro hx
    have hsym : Apart b a := by
      rw [Apart, BitVec.and_comm]
      exact h
    refine ⟨and_eq_of_and_or h hu hv hx, and_eq_of_and_or hsym hv hu ?_⟩
    rw [BitVec.or_comm b a, BitVec.or_comm v u]
    exact hx
  · rintro ⟨hxa, hxb⟩
    rw [BitVec.and_or_distrib_left, hxa, hxb]

/-- The mask of the low `n` bits. -/
def low (n w : ℕ) : BitVec w := (BitVec.allOnes n).setWidth w

/-- The low bits are compared as a narrow number. -/
theorem and_low_eq_iff (hn : n ≤ w) (x : BitVec w) (id : BitVec n) :
    x &&& low n w = id.setWidth w ↔ x.setWidth n = id := by
  constructor
  · intro h
    ext i hi
    have hlt : i < w := by omega
    have hbit := getElem_of_eq h i hlt
    simpa [low, hi, BitVec.getLsbD_eq_getElem hlt] using hbit
  · rintro rfl
    ext i hi
    by_cases hlow : i < n
    · simp [low, hlow, BitVec.getLsbD_eq_getElem hi]
    · simp [low, hlow]

theorem setWidth_and_low (hn : n ≤ w) (id : BitVec n) : id.setWidth w &&& low n w = id.setWidth w := by
  rw [and_low_eq_iff hn]
  ext i hi
  have hlt : i < w := by omega
  simp [hlt, BitVec.getLsbD_eq_getElem hi]

/-- Flags and the low bits together. -/
theorem and_flags_low_eq_iff (hn : n ≤ w) {f : BitVec w} (h : Apart f (low n w)) (x : BitVec w)
    (id : BitVec n) : x &&& (f ||| low n w) = f ||| id.setWidth w ↔ Has x f ∧ x.setWidth n = id := by
  rw [and_or_eq_iff h (BitVec.and_self) (setWidth_and_low hn id), and_low_eq_iff hn]
  rfl

/-- Two sets of flags. -/
theorem has_or_iff {x f g : BitVec w} : Has x (f ||| g) ↔ Has x f ∧ Has x g := by
  constructor
  · intro h
    constructor
    · ext i hi
      have hbit := getElem_of_eq h i hi
      simp only [BitVec.getElem_and, BitVec.getElem_or] at hbit ⊢
      grind
    · ext i hi
      have hbit := getElem_of_eq h i hi
      simp only [BitVec.getElem_and, BitVec.getElem_or] at hbit ⊢
      grind
  · rintro ⟨hf, hg⟩
    rw [Has, BitVec.and_or_distrib_left, hf, hg]

theorem has_or_left {x y f : BitVec w} (h : Has x f) : Has (x ||| y) f := by
  ext i hi
  have hbit := getElem_of_eq h i hi
  simp only [BitVec.getElem_and, BitVec.getElem_or] at hbit ⊢
  grind

theorem has_or_right {x y f : BitVec w} (h : Has y f) : Has (x ||| y) f := by
  rw [BitVec.or_comm]
  exact has_or_left h

/-- A negative number that is extended has all the flags above its sign. -/
theorem has_signExtend {id : BitVec n} {f : BitVec w} (hid : id.msb = true)
    (hf : Apart f (low n w)) : Has (id.signExtend w) f := by
  ext i hi
  have hbit := getElem_of_eq hf i hi
  by_cases hlow : i < n
  · have hclear : f[i] = false := by simpa [low, hlow] using hbit
    simp [hclear]
  · simp [BitVec.getElem_signExtend, hlow, hid]

/-- The low bits of flags with an extended number are the number. -/
theorem setWidth_or_signExtend (hn : n ≤ w) {f : BitVec w} (hf : Apart f (low n w)) (id : BitVec n) :
    (f ||| id.signExtend w).setWidth n = id := by
  ext i hi
  have hlt : i < w := by omega
  have hbit := getElem_of_eq hf i hlt
  have hclear : f[i] = false := by simpa [low, hi] using hbit
  simp [BitVec.getLsbD_eq_getElem hlt, BitVec.getElem_signExtend, hi, hclear]

/-- Flags under a mask that is clear in the word are not there. -/
theorem not_has_of_and_eq_zero {x f m : BitVec w} (hf : f ≠ 0) (hm : f &&& m = f)
    (hx : x &&& m = 0) : ¬ Has x f := by
  intro h
  apply hf
  calc f = x &&& f &&& m := by rw [h, hm]
    _ = x &&& m &&& f := by rw [BitVec.and_assoc, BitVec.and_comm f m, ← BitVec.and_assoc]
    _ = 0 := by simp [hx]

/-- A pattern outside of the mask is never matched. -/
theorem and_ne_of_apart {x p m : BitVec w} (hp : p ≠ 0) (h : Apart p m) : x &&& m ≠ p := by
  intro heq
  apply hp
  calc p = x &&& m &&& m := by rw [BitVec.and_assoc, BitVec.and_self, heq]
    _ = p &&& m := by rw [heq]
    _ = 0 := h

theorem apart_or_left {a b c : BitVec w} (ha : Apart a c) (hb : Apart b c) : Apart (a ||| b) c := by
  rw [Apart, BitVec.and_comm, BitVec.and_or_distrib_left, BitVec.and_comm c a, BitVec.and_comm c b,
    ha, hb]
  simp

theorem apart_or_right {a b c : BitVec w} (hb : Apart a b) (hc : Apart a c) : Apart a (b ||| c) := by
  rw [Apart, BitVec.and_or_distrib_left, hb, hc]
  simp

theorem or_eq_of_has {x f : BitVec w} (h : Has x f) : f ||| x = x := by
  ext i hi
  have hbit := getElem_of_eq h i hi
  rw [BitVec.getElem_and] at hbit
  rw [BitVec.getElem_or]
  cases hf : f[i] with
  | false => rfl
  | true => simpa [hf] using hbit.symm

/-- Flags that are in none of the parts of a word are not in the word. -/
theorem not_has_or {x y f : BitVec w} (hf : f ≠ 0) (hx : Apart x f) (hy : Apart y f) :
    ¬ Has (x ||| y) f := by
  intro h
  apply hf
  have hor : Apart (x ||| y) f := apart_or_left hx hy
  rw [← h, hor]

end BitMask
