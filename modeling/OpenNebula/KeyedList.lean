/-
# Lists with keys

A list whose elements have a key, used as a map: the element of a key is the first one with that key.
The operations change, append and erase an element.  `find_modify`, `find_concat` and `find_erase` say
what is found after each of them; `Unique` says that no two elements have the same key.
-/
import Mathlib

namespace KeyedList

variable {α κ : Type*} [DecidableEq κ] (key : α → κ)

/-- The first element with a key. -/
def find (l : List α) (k : κ) : Option α := l.find? fun a => key a = k

/-- A change of the first element with a key. -/
def modify (f : α → α) (k : κ) : List α → List α
  | [] => []
  | a :: l => if key a = k then f a :: l else a :: modify f k l

/-- Without the first element with a key. -/
def erase (k : κ) (l : List α) : List α := l.eraseP fun a => key a = k

/-- No two elements have the same key. -/
def Unique (l : List α) : Prop := (l.map key).Nodup

variable {key} {l : List α} {a : α} {k i : κ} {f : α → α}

theorem find_nil : find key [] k = none := rfl

theorem find_cons : find key (a :: l) k = if key a = k then some a else find key l k := by
  unfold find
  rw [List.find?_cons]
  by_cases h : key a = k
  · rw [if_pos h, decide_eq_true h]
  · rw [if_neg h, decide_eq_false h]

theorem key_of_find (h : find key l k = some a) : key a = k := by
  simpa using List.find?_some h

theorem mem_of_find (h : find key l k = some a) : a ∈ l := List.mem_of_find?_eq_some h

theorem find_eq_none_iff : find key l k = none ↔ ∀ a ∈ l, key a ≠ k := by
  rw [find, List.find?_eq_none]
  simp

theorem find_of_mem (hu : Unique key l) (h : a ∈ l) : find key l (key a) = some a := by
  induction l with
  | nil => exact absurd h List.not_mem_nil
  | cons b l ih =>
    rw [Unique, List.map_cons, List.nodup_cons] at hu
    rw [find_cons]
    rcases List.mem_cons.mp h with rfl | hmem
    · exact if_pos rfl
    · have hne : key b ≠ key a := fun heq => hu.1 (heq ▸ List.mem_map_of_mem hmem)
      rw [if_neg hne]
      exact ih hu.2 hmem

/-! ## Change -/

theorem find_modify (hf : ∀ a, key (f a) = key a) :
    find key (modify key f k l) i = if i = k then (find key l k).map f else find key l i := by
  induction l with
  | nil =>
    rw [modify, find_nil, find_nil]
    exact (ite_self none).symm
  | cons a l ih =>
    rw [modify]
    by_cases ha : key a = k
    · rw [if_pos ha, find_cons, find_cons, find_cons, hf, if_pos ha]
      by_cases hi : i = k
      · rw [if_pos (ha.trans hi.symm), if_pos hi, Option.map_some]
      · have hne : key a ≠ i := fun heq => hi (heq.symm.trans ha)
        rw [if_neg hne, if_neg hi, if_neg hne]
    · rw [if_neg ha, find_cons, find_cons, find_cons, ih, if_neg ha]
      by_cases hi : i = k
      · have hne : key a ≠ i := fun heq => ha (heq.trans hi)
        rw [if_neg hne]
        rw [if_pos hi, if_pos hi]
      · by_cases hai : key a = i
        · rw [if_pos hai, if_neg hi]
          rw [if_pos hai]
        · rw [if_neg hai, if_neg hi, if_neg hi]
          rw [if_neg hai]

theorem map_modify (hf : ∀ a, key (f a) = key a) : (modify key f k l).map key = l.map key := by
  induction l with
  | nil => rfl
  | cons a l ih =>
    rw [modify]
    by_cases ha : key a = k
    · rw [if_pos ha, List.map_cons, List.map_cons, hf]
    · rw [if_neg ha, List.map_cons, List.map_cons, ih]

theorem Unique.modify (hf : ∀ a, key (f a) = key a) (hu : Unique key l) :
    Unique key (modify key f k l) := by
  rw [Unique, map_modify hf]
  exact hu

/-! ## A new element -/

theorem find_concat :
    find key (l ++ [a]) i = (find key l i).or (if key a = i then some a else none) := by
  induction l with
  | nil =>
    rw [List.nil_append, find_cons, find_nil, Option.none_or]
  | cons b l ih =>
    rw [List.cons_append, find_cons, find_cons, ih]
    by_cases hb : key b = i
    · rw [if_pos hb, if_pos hb, Option.some_or]
    · rw [if_neg hb, if_neg hb]

theorem Unique.concat (hu : Unique key l) (hnew : find key l (key a) = none) :
    Unique key (l ++ [a]) := by
  rw [Unique, List.map_append, List.map_singleton, List.nodup_append]
  refine ⟨hu, List.nodup_singleton _, ?_⟩
  intro x hx y hy hxy
  obtain ⟨b, hb, rfl⟩ := List.mem_map.mp hx
  rw [List.mem_singleton.mp hy] at hxy
  exact find_eq_none_iff.mp hnew b hb hxy

/-! ## Erasure -/

theorem find_erase (hu : Unique key l) :
    find key (erase key k l) i = if i = k then none else find key l i := by
  induction l with
  | nil => exact (ite_self none).symm
  | cons a l ih =>
    have hcons := List.nodup_cons.mp hu
    unfold erase
    rw [List.eraseP_cons]
    by_cases ha : key a = k
    · rw [decide_eq_true ha, cond_true, find_cons]
      by_cases hi : i = k
      · rw [if_pos hi, find_eq_none_iff]
        intro b hb heq
        rw [ha, ← hi, ← heq] at hcons
        exact hcons.1 (List.mem_map_of_mem hb)
      · have hne : key a ≠ i := fun heq => hi (heq.symm.trans ha)
        rw [if_neg hi, if_neg hne]
    · rw [decide_eq_false ha, cond_false, find_cons, find_cons]
      have htail := ih hcons.2
      unfold erase at htail
      rw [htail]
      by_cases hi : i = k
      · have hne : key a ≠ i := fun heq => ha (heq.trans hi)
        rw [if_neg hne, if_pos hi, if_pos hi]
      · rw [if_neg hi, if_neg hi]

theorem Unique.erase (hu : Unique key l) : Unique key (erase key k l) :=
  List.Nodup.sublist (List.eraseP_sublist.map key) hu

end KeyedList
