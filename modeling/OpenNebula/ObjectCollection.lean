/-
# Collections of identifiers (`src/pool/ObjectCollection.cc`)

A collection is a set of identifiers.  Objects that follow an operation on many virtual machines keep
four of them, one for each stage.  `Exclusive` says that each identifier is in at most one.
-/
import Mathlib

/-- `ObjectCollection`. -/
abbrev ObjectCollection := Finset ℤ

namespace ObjectCollection

-- the order in which a set of identifiers is walked
instance isTrans_le : IsTrans ℤ (fun a b => a ≤ b) := inferInstance

instance antisymm_le : Std.Antisymm (fun a b : ℤ => a ≤ b) := inferInstance

/-- `ObjectCollection::add`: -1 when the identifier is already there. -/
def add (c : ObjectCollection) (id : ℤ) : ℤ × ObjectCollection :=
  (if id ∈ c then -1 else 0, insert id c)

/-- `ObjectCollection::del`: -1 when the identifier is not there. -/
def del (c : ObjectCollection) (id : ℤ) : ℤ × ObjectCollection :=
  (if id ∈ c then 0 else -1, c.erase id)

/-- `ObjectCollection::del_not_present`: it returns how many identifiers are deleted. -/
def delNotPresent (c base : ObjectCollection) : ℕ × ObjectCollection :=
  ((c.filter fun id => id ∉ base).card, c.filter fun id => id ∈ base)

/-- `ObjectCollection::pop`: the first identifier. -/
def pop (c : ObjectCollection) : Option (ℤ × ObjectCollection) :=
  if h : c.Nonempty then some (c.min' h, c.erase (c.min' h)) else none

theorem pop_eq_some {c c' : ObjectCollection} {id : ℤ} (h : c.pop = some (id, c')) :
    id ∈ c ∧ c' = c.erase id := by
  unfold pop at h
  split at h
  · rename_i hne
    obtain ⟨rfl, rfl⟩ := Prod.mk.inj (Option.some.inj h)
    exact ⟨c.min'_mem hne, rfl⟩
  · simp at h

@[simp] theorem mem_add {c : ObjectCollection} {id v : ℤ} : v ∈ (c.add id).2 ↔ v = id ∨ v ∈ c :=
  Finset.mem_insert

@[simp] theorem mem_del {c : ObjectCollection} {id v : ℤ} : v ∈ (c.del id).2 ↔ v ≠ id ∧ v ∈ c :=
  Finset.mem_erase

@[simp] theorem mem_delNotPresent {c base : ObjectCollection} {v : ℤ} :
    v ∈ (c.delNotPresent base).2 ↔ v ∈ c ∧ v ∈ base :=
  Finset.mem_filter

theorem del_rc_eq_zero {c : ObjectCollection} {id : ℤ} : (c.del id).1 = 0 ↔ id ∈ c := by
  unfold del
  split
  · rename_i h
    simp [h]
  · rename_i h
    simp [h]

/-! ## Stages -/

/-- Each identifier is in at most one of four collections. -/
def Exclusive (a b c d : ObjectCollection) : Prop :=
  [a, b, c, d].Pairwise Disjoint

/-- The same, for each identifier. -/
theorem exclusive_iff {a b c d : ObjectCollection} :
    Exclusive a b c d ↔ ∀ v, (v ∈ a → v ∉ b ∧ v ∉ c ∧ v ∉ d) ∧ (v ∈ b → v ∉ c ∧ v ∉ d) ∧
      (v ∈ c → v ∉ d) := by
  simp only [Exclusive, List.pairwise_cons, List.mem_cons, List.not_mem_nil, or_false,
    forall_eq_or_imp, forall_eq, Finset.disjoint_left, List.Pairwise.nil, IsEmpty.forall_iff,
    implies_true, and_true]
  constructor
  · rintro ⟨⟨hab, hac, had⟩, ⟨hbc, hbd⟩, hcd⟩ v
    exact ⟨fun h => ⟨hab h, hac h, had h⟩, fun h => ⟨hbc h, hbd h⟩, fun h => hcd h⟩
  · intro h
    exact ⟨⟨fun v hv => ((h v).1 hv).1, fun v hv => ((h v).1 hv).2.1,
      fun v hv => ((h v).1 hv).2.2⟩, ⟨fun v hv => ((h v).2.1 hv).1, fun v hv => ((h v).2.1 hv).2⟩,
      fun v hv => (h v).2.2 hv⟩

end ObjectCollection
