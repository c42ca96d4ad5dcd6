/-
# Ordered maps

A map with ordered keys (`std::map`) is the list of its entries in the order of the keys.  `alter`
makes or changes the entry of a key and keeps the order; `modify` changes the entry of a key that is
there.  A map that is built in the order of its keys is built at its end (`alter_concat_new`,
`alter_concat_last`).
-/
import Mathlib

/-- The entries of a map, in the order of their keys. -/
abbrev OrderedMap (κ β : Type*) := List (κ × β)

namespace OrderedMap

variable {κ β : Type*} [LinearOrder κ]

/-- The keys. -/
def keys (m : OrderedMap κ β) : List κ := m.map Prod.fst

/-- `std::map::find`. -/
def find (m : OrderedMap κ β) (k : κ) : Option β := (m.find? fun e => e.1 = k).map Prod.snd

/-- The entry of a key is made, or changed when it is there (`operator[]`). -/
def alter (k : κ) (f : Option β → β) : OrderedMap κ β → OrderedMap κ β
  | [] => [(k, f none)]
  | e :: m =>
    if k < e.1 then (k, f none) :: e :: m
    else if k = e.1 then (k, f (some e.2)) :: m
    else e :: alter k f m

/-- The entry of a key is changed. -/
def modify (k : κ) (f : β → β) (m : OrderedMap κ β) : OrderedMap κ β :=
  m.map fun e => if e.1 = k then (e.1, f e.2) else e

/-- The keys are in their order. -/
def Sorted (m : OrderedMap κ β) : Prop := m.Pairwise fun e e' => e.1 < e'.1

variable {m m' : OrderedMap κ β} {k : κ} {f : Option β → β} {b : β}

theorem mem_of_find (h : m.find k = some b) : (k, b) ∈ m := by
  obtain ⟨e, he, rfl⟩ := Option.map_eq_some_iff.mp h
  have hkey : e.1 = k := by simpa using List.find?_some he
  rw [← hkey]
  exact List.mem_of_find?_eq_some he

theorem find_isSome (h : k ∈ m.keys) : ∃ b, m.find k = some b := by
  obtain ⟨e, he, rfl⟩ := List.mem_map.mp h
  have hsome : (m.find? fun x => x.1 = e.1).isSome := by
    rw [List.find?_isSome]
    exact ⟨e, he, by simp⟩
  obtain ⟨e', he'⟩ := Option.isSome_iff_exists.mp hsome
  exact ⟨e'.2, by rw [find, he', Option.map_some]⟩

theorem mem_keys_of_find (h : m.find k = some b) : k ∈ m.keys := List.mem_map_of_mem (mem_of_find h)

@[simp] theorem keys_modify (g : β → β) : (m.modify k g).keys = m.keys := by
  rw [keys, modify, List.map_map]
  refine List.map_congr_left fun e _ => ?_
  by_cases hk : e.1 = k
  · simp [hk]
  · simp [hk]

theorem find_cons (e : κ × β) (m : OrderedMap κ β) (k : κ) :
    find (e :: m) k = if e.1 = k then some e.2 else m.find k := by
  unfold find
  rw [List.find?_cons]
  by_cases hk : e.1 = k
  · rw [if_pos hk, decide_eq_true hk]
    rfl
  · rw [if_neg hk, decide_eq_false hk]

/-- The values are changed. -/
theorem find_map {γ : Type*} (g : κ → β → γ) (m : OrderedMap κ β) (k : κ) :
    OrderedMap.find (m.map fun e => (e.1, g e.1 e.2)) k = (m.find k).map (g k) := by
  induction m with
  | nil => rfl
  | cons e m ih =>
    rw [List.map_cons, find_cons, find_cons, ih]
    split_ifs with hk
    · rw [Option.map_some, ← hk]
    · rfl

theorem find_modify (g : β → β) (m : OrderedMap κ β) (k k' : κ) :
    (m.modify k g).find k' = (m.find k').map fun b => if k' = k then g b else b := by
  have hmodify : m.modify k g = m.map fun e => (e.1, if e.1 = k then g e.2 else e.2) := by
    refine List.map_congr_left fun e _ => ?_
    split_ifs <;> rfl
  rw [hmodify, find_map fun x b => if x = k then g b else b]

theorem mem_modify {e : κ × β} {g : β → β} (h : e ∈ m.modify k g) :
    e ∈ m ∨ ∃ b, (k, b) ∈ m ∧ e = (k, g b) := by
  obtain ⟨x, hx, rfl⟩ := List.mem_map.mp h
  split_ifs with hk
  · exact Or.inr ⟨x.2, by rw [← hk]; exact hx, by rw [hk]⟩
  · exact Or.inl hx

theorem mem_alter {e : κ × β} (h : e ∈ m.alter k f) :
    e ∈ m ∨ (e = (k, f none)) ∨ ∃ b, (k, b) ∈ m ∧ e = (k, f (some b)) := by
  induction m with
  | nil => exact Or.inr (Or.inl (List.mem_singleton.mp h))
  | cons x m ih =>
    rw [alter] at h
    split_ifs at h with hlt heq
    · rcases List.mem_cons.mp h with rfl | h
      · exact Or.inr (Or.inl rfl)
      · exact Or.inl h
    · rcases List.mem_cons.mp h with rfl | h
      · exact Or.inr (Or.inr ⟨x.2, by rw [heq]; exact List.mem_cons_self, rfl⟩)
      · exact Or.inl (List.mem_cons_of_mem _ h)
    · rcases List.mem_cons.mp h with rfl | h
      · exact Or.inl List.mem_cons_self
      · rcases ih h with h | h | ⟨b, hb, h⟩
        · exact Or.inl (List.mem_cons_of_mem _ h)
        · exact Or.inr (Or.inl h)
        · exact Or.inr (Or.inr ⟨b, List.mem_cons_of_mem _ hb, h⟩)

theorem key_mem_alter {x : κ} (h : x ∈ (m.alter k f).keys) : x = k ∨ x ∈ m.keys := by
  obtain ⟨e, he, rfl⟩ := List.mem_map.mp h
  rcases mem_alter he with h | rfl | ⟨b, -, rfl⟩
  · exact Or.inr (List.mem_map_of_mem h)
  · exact Or.inl rfl
  · exact Or.inl rfl

theorem mem_keys_alter {x : κ} (h : x = k ∨ x ∈ m.keys) : x ∈ (m.alter k f).keys := by
  induction m with
  | nil =>
    rcases h with rfl | h
    · exact List.mem_cons_self
    · exact absurd h List.not_mem_nil
  | cons e m ih =>
    rw [alter]
    split_ifs with hlt heq
    · rcases h with rfl | h
      · exact List.mem_cons_self
      · exact List.mem_cons_of_mem _ h
    · rcases h with rfl | h
      · exact List.mem_cons_self
      · rcases List.mem_cons.mp h with rfl | h
        · rw [← heq]
          exact List.mem_cons_self
        · exact List.mem_cons_of_mem _ h
    · rcases h with rfl | h
      · exact List.mem_cons_of_mem _ (ih (Or.inl rfl))
      · rcases List.mem_cons.mp h with rfl | h
        · exact List.mem_cons_self
        · exact List.mem_cons_of_mem _ (ih (Or.inr h))

theorem Sorted.alter (h : m.Sorted) : (m.alter k f).Sorted := by
  induction m with
  | nil => exact List.pairwise_singleton _ _
  | cons e m ih =>
    obtain ⟨hhead, htail⟩ := List.pairwise_cons.mp h
    rw [OrderedMap.alter]
    split_ifs with hlt heq
    · refine List.pairwise_cons.mpr ⟨?_, h⟩
      intro x hx
      rcases List.mem_cons.mp hx with rfl | hx
      · exact hlt
      · exact hlt.trans (hhead x hx)
    · refine List.pairwise_cons.mpr ⟨?_, htail⟩
      intro x hx
      rw [heq]
      exact hhead x hx
    · refine List.pairwise_cons.mpr ⟨?_, ih htail⟩
      intro x hx
      rcases key_mem_alter (List.mem_map_of_mem hx) with hk | hx'
      · rw [hk]
        exact lt_of_le_of_ne (not_lt.mp hlt) (fun hne => heq hne.symm)
      · obtain ⟨y, hy, hkey⟩ := List.mem_map.mp hx'
        rw [← hkey]
        exact hhead y hy

/-- A key has one entry. -/
theorem Sorted.unique (h : m.Sorted) {e e' : κ × β} (he : e ∈ m) (he' : e' ∈ m) (hkey : e.1 = e'.1) :
    e = e' := by
  have hnodup : (m.map Prod.fst).Nodup := List.pairwise_map.mpr (h.imp fun hlt => hlt.ne)
  exact List.inj_on_of_nodup_map hnodup he he' hkey

theorem Sorted.find_of_mem (h : m.Sorted) {e : κ × β} (he : e ∈ m) : m.find e.1 = some e.2 := by
  obtain ⟨b, hb⟩ := find_isSome (List.mem_map_of_mem he : e.1 ∈ m.keys)
  rw [hb, h.unique he (mem_of_find hb) rfl]

theorem Sorted.find_alter (h : m.Sorted) (k' : κ) :
    (m.alter k f).find k' = if k' = k then some (f (m.find k)) else m.find k' := by
  induction m with
  | nil =>
    rw [OrderedMap.alter, find_cons]
    by_cases hk : k' = k
    · rw [if_pos hk, if_pos hk.symm]
      rfl
    · rw [if_neg hk, if_neg (Ne.symm hk)]
  | cons e m ih =>
    obtain ⟨hfirst, hm⟩ := List.pairwise_cons.mp h
    rw [OrderedMap.alter]
    by_cases hlt : k < e.1
    · have hnone : OrderedMap.find (e :: m) k = none := by
        by_contra hsome
        obtain ⟨b, hb⟩ := Option.ne_none_iff_exists'.mp hsome
        rcases List.mem_cons.mp (mem_of_find hb) with hmem | hmem
        · exact absurd hlt (by rw [← hmem]; exact lt_irrefl _)
        · exact absurd (hlt.trans (hfirst _ hmem)) (lt_irrefl _)
      rw [if_pos hlt, find_cons, hnone]
      by_cases hk : k' = k
      · rw [if_pos hk.symm, if_pos hk]
      · rw [if_neg (Ne.symm hk), if_neg hk]
    · rw [if_neg hlt]
      by_cases heq : k = e.1
      · rw [if_pos heq, find_cons, find_cons, if_pos heq.symm]
        by_cases hk : k' = k
        · rw [if_pos hk.symm, if_pos hk]
        · rw [if_neg (Ne.symm hk), if_neg hk, find_cons, if_neg]
          rw [← heq]
          exact Ne.symm hk
      · rw [if_neg heq, find_cons, find_cons, ih hm, if_neg (Ne.symm heq), find_cons]
        by_cases hk : k' = k
        · rw [if_pos hk, if_neg, if_pos hk]
          rw [hk]
          exact Ne.symm heq
        · rw [if_neg hk, if_neg hk]

theorem Sorted.modify (h : m.Sorted) (g : β → β) : (m.modify k g).Sorted := by
  refine List.pairwise_map.mpr (h.imp ?_)
  intro e e' hlt
  split_ifs <;> exact hlt

/-- A greater key goes to the end. -/
theorem alter_concat_new (h : ∀ e ∈ m, e.1 < k) : m.alter k f = m ++ [(k, f none)] := by
  induction m with
  | nil => rfl
  | cons e m ih =>
    have hlt := h e List.mem_cons_self
    rw [alter, if_neg hlt.asymm, if_neg hlt.ne', ih fun x hx => h x (List.mem_cons_of_mem _ hx)]
    rfl

/-- The last entry is changed. -/
theorem alter_concat_last (h : ∀ e ∈ m, e.1 < k) :
    OrderedMap.alter k f (m ++ [(k, b)]) = m ++ [(k, f (some b))] := by
  induction m with
  | nil =>
    rw [List.nil_append, alter, if_neg (lt_irrefl k), if_pos rfl]
    rfl
  | cons e m ih =>
    have hlt := h e List.mem_cons_self
    rw [List.cons_append, alter, if_neg hlt.asymm, if_neg hlt.ne',
      ih fun x hx => h x (List.mem_cons_of_mem _ hx)]
    rfl

end OrderedMap
