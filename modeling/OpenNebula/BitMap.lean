/-
# Bitmaps of numbers that are given out (`include/BitMap.h`)

The VLAN ids of the networks and the VNC ports of the clusters are given out from a bitmap of `N` bits.  A
bitmap has a first bit for its search and reserved bits that it never gives out; a caller can ask for a bit of
its own (`hint`), and 0 is no hint.

The set bits are a finite set here.  Their text in the database is left out.
-/
import Mathlib

namespace BitMap

/-- `START` and `RESERVED`. -/
structure Conf where
  startBit : ℕ
  reserved : Finset ℕ

variable {N : ℕ} {conf : Conf} {bs bs' : Finset ℕ} {hint bit : ℕ}

/-- The first bit that is neither set nor reserved. -/
def search (N : ℕ) (conf : Conf) (bs : Finset ℕ) : Option ℕ :=
  (List.range' conf.startBit (N - conf.startBit)).find? fun bit => bit ∉ bs ∧ bit ∉ conf.reserved

/-- `get`: a free bit, which is then set; the hint has to be a bit of the map. -/
def get (N : ℕ) (conf : Conf) (bs : Finset ℕ) (hint : ℕ) : Option (ℕ × Finset ℕ) :=
  if hint ≠ 0 ∧ hint ∉ bs ∧ hint ∉ conf.reserved then some (hint, insert hint bs)
  else (search N conf bs).map fun bit => (bit, insert bit bs)

/-- `reset`. -/
def reset (bs : Finset ℕ) (bit : ℕ) : Finset ℕ := bs.erase bit

theorem search_spec (h : search N conf bs = some bit) :
    bit ∉ bs ∧ bit ∉ conf.reserved ∧ conf.startBit ≤ bit ∧ bit < N := by
  have hfree := List.find?_some h
  have hmem := List.mem_range'_1.mp (List.mem_of_find?_eq_some h)
  obtain ⟨hbs, hreserved⟩ := of_decide_eq_true hfree
  exact ⟨hbs, hreserved, hmem.1, by omega⟩

/-- **A bit that is given out** was free and not reserved, and it is the only one that is set. -/
theorem get_spec (hhint : hint < N) (h : get N conf bs hint = some (bit, bs')) :
    bit ∉ bs ∧ bit ∉ conf.reserved ∧ bit < N ∧ bs' = insert bit bs := by
  unfold get at h
  split at h
  · rename_i hfree
    obtain ⟨rfl, rfl⟩ := Prod.ext_iff.mp (Option.some.inj h)
    exact ⟨hfree.2.1, hfree.2.2, hhint, rfl⟩
  · obtain ⟨b, hb, hpair⟩ := Option.map_eq_some_iff.mp h
    obtain ⟨rfl, rfl⟩ := Prod.ext_iff.mp hpair
    obtain ⟨hbs, hreserved, -, hlt⟩ := search_spec hb
    exact ⟨hbs, hreserved, hlt, rfl⟩

/-- The bits have run out when every bit from the first one on is set or reserved. -/
theorem get_eq_none (h : get N conf bs hint = none) (hstart : conf.startBit ≤ bit) (hbit : bit < N) :
    bit ∈ bs ∨ bit ∈ conf.reserved := by
  unfold get at h
  split at h
  · exact absurd h (Option.some_ne_none _)
  · have hnone := List.find?_eq_none.mp (Option.map_eq_none_iff.mp h) bit
      (List.mem_range'_1.mpr ⟨hstart, by omega⟩)
    by_contra hneither
    exact hnone (decide_eq_true (not_or.mp hneither))

end BitMap
