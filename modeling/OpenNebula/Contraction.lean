/-
# Leaders and relations without cycles

A relation "`v` waits for `w`" changes when a leader is elected in a set: every other member waits for the
leader from then on, and the leader waits for all that a member waited for (`elect`).  This keeps the
relation free of cycles exactly when the relation has none with the whole set taken as one vertex
(`acyclic_elect_iff`).  For sets that have no member in common the elections do not interfere: the sets
can be taken together (`acyclic_electAll_iff`).
-/
import Mathlib

namespace Contraction

variable {V : Type*}

/-- No vertex reaches itself. -/
def Acyclic (r : V → V → Prop) : Prop := ∀ v, ¬ Relation.TransGen r v v

variable [DecidableEq V]

/-- A finite set of vertices with a leader. -/
structure Led (V : Type*) where
  members : Finset V
  leader : V
  mem : leader ∈ members

/-- The leader takes what the members wait for, and the members wait for the leader. -/
def elect (s : Led V) (r : V → V → Prop) (v w : V) : Prop :=
  r v w ∨ (v = s.leader ∧ ∃ m ∈ s.members, r m w) ∨ (v ∈ s.members ∧ v ≠ s.leader ∧ w = s.leader)

/-- The leader stands for the whole set. -/
def Led.rep (s : Led V) (v : V) : V := if v ∈ s.members then s.leader else v

/-- The set is taken as one vertex. -/
def contract (s : Led V) (r : V → V → Prop) : V → V → Prop := Relation.Map r s.rep s.rep

variable {s : Led V} {r : V → V → Prop} {v w : V}

theorem Led.rep_of_mem (h : v ∈ s.members) : s.rep v = s.leader := if_pos h

theorem Led.rep_of_not_mem (h : v ∉ s.members) : s.rep v = v := if_neg h

/-! ## One election -/

/-- A vertex that is waited for after a contraction is waited for after an election. -/
theorem elect_of_contract (h : contract s r v w) : Relation.TransGen (elect s r) v w := by
  obtain ⟨a, b, hab, rfl, rfl⟩ := h
  have hfirst : elect s r (s.rep a) b := by
    by_cases ha : a ∈ s.members
    · rw [Led.rep_of_mem ha]
      exact Or.inr (Or.inl ⟨rfl, a, ha, hab⟩)
    · rw [Led.rep_of_not_mem ha]
      exact Or.inl hab
  by_cases hb : b ∈ s.members
  · rw [Led.rep_of_mem hb]
    by_cases hlead : b = s.leader
    · rw [← hlead]
      exact Relation.TransGen.single hfirst
    · exact (Relation.TransGen.single hfirst).tail (Or.inr (Or.inr ⟨hb, hlead, rfl⟩))
  · rw [Led.rep_of_not_mem hb]
    exact Relation.TransGen.single hfirst

/-- One step after an election is one after a contraction, or it goes from a member to the leader. -/
theorem contract_of_elect (h : elect s r v w) :
    contract s r (s.rep v) (s.rep w) ∨ (v ∈ s.members ∧ v ≠ s.leader ∧ w = s.leader) := by
  rcases h with hr | ⟨rfl, m, hm, hr⟩ | hstar
  · exact Or.inl ⟨v, w, hr, rfl, rfl⟩
  · refine Or.inl ⟨m, w, hr, ?_, rfl⟩
    rw [Led.rep_of_mem hm, Led.rep_of_mem s.mem]
  · exact Or.inr hstar

/-- A path after an election is one after a contraction, or the step from a member to the leader. -/
theorem contract_path (h : Relation.TransGen (elect s r) v w) :
    Relation.TransGen (contract s r) (s.rep v) (s.rep w) ∨
      (v ∈ s.members ∧ v ≠ s.leader ∧ w = s.leader) := by
  have hstay : ∀ {v w}, v ∈ s.members → w = s.leader → s.rep w = s.rep v := by
    intro v w hv hw
    rw [hw, Led.rep_of_mem hv, Led.rep_of_mem s.mem]
  induction h with
  | single h => exact (contract_of_elect h).imp_left Relation.TransGen.single
  | @tail b c _ h ih =>
    rcases ih with hpath | ⟨hv, hne, hb⟩
    · refine Or.inl ?_
      rcases contract_of_elect h with hstep | ⟨hb, -, hc⟩
      · exact hpath.tail hstep
      · rw [hstay hb hc]
        exact hpath
    · -- The leader is not a member that waits for the leader.
      rcases contract_of_elect h with hstep | ⟨-, hlead, -⟩
      · refine Or.inl ?_
        rw [← hstay hv hb]
        exact Relation.TransGen.single hstep
      · exact absurd hb hlead

/-- **One election**: there are no cycles exactly when there are none with the set taken as one vertex. -/
theorem acyclic_elect_iff : Acyclic (elect s r) ↔ Acyclic (contract s r) := by
  constructor
  · intro h v hcycle
    have hlift : ∀ {a b}, Relation.TransGen (contract s r) a b →
        Relation.TransGen (elect s r) a b := by
      intro a b hab
      induction hab with
      | single hstep => exact elect_of_contract hstep
      | tail _ hstep ih => exact ih.trans (elect_of_contract hstep)
    exact h v (hlift hcycle)
  · intro h v hcycle
    rcases contract_path hcycle with hpath | ⟨-, hne, heq⟩
    · exact h _ hpath
    · exact hne heq

/-! ## Many elections -/

variable {s' : Led V}

/-- Elections and contractions of sets without common members can change places. -/
theorem contract_elect (h : Disjoint s.members s'.members) :
    contract s' (elect s r) = elect s (contract s' r) := by
  have hout : ∀ {v}, v ∈ s.members → s'.rep v = v :=
    fun hv => Led.rep_of_not_mem (Finset.disjoint_left.mp h hv)
  have hback : ∀ {a m}, m ∈ s.members → s'.rep a = m → a = m := by
    intro a m hm ha
    by_cases hmem : a ∈ s'.members
    · rw [Led.rep_of_mem hmem] at ha
      rw [← ha] at hm
      exact absurd s'.mem (Finset.disjoint_left.mp h hm)
    · rwa [Led.rep_of_not_mem hmem] at ha
  funext v w
  refine propext ⟨?_, ?_⟩
  · rintro ⟨a, b, hab | ⟨rfl, m, hm, hr⟩ | ⟨ha, hne, rfl⟩, rfl, rfl⟩
    · exact Or.inl ⟨a, b, hab, rfl, rfl⟩
    · exact Or.inr (Or.inl ⟨hout s.mem, m, hm, m, b, hr, hout hm, rfl⟩)
    · rw [hout ha, hout s.mem]
      exact Or.inr (Or.inr ⟨ha, hne, rfl⟩)
  · rintro (⟨a, b, hab, rfl, rfl⟩ | ⟨rfl, m, hm, a, b, hr, ha, rfl⟩ | ⟨hv, hne, rfl⟩)
    · exact ⟨a, b, Or.inl hab, rfl, rfl⟩
    · rw [hback hm ha] at hr
      exact ⟨s.leader, b, Or.inr (Or.inl ⟨rfl, m, hm, hr⟩), hout s.mem, rfl⟩
    · exact ⟨v, s.leader, Or.inr (Or.inr ⟨hv, hne, rfl⟩), hout hv, hout s.mem⟩

/-- The elections in the sets of a list, one after the other. -/
def electAll (l : List (Led V)) (r : V → V → Prop) : V → V → Prop :=
  l.foldl (fun r s => elect s r) r

/-- The leader of the first set that a vertex is in, or the vertex itself. -/
def leaderOf (l : List (Led V)) (v : V) : V :=
  match l.find? fun s => v ∈ s.members with
  | some s => s.leader
  | none => v

/-- All the sets are taken as one vertex each. -/
def contractAll (l : List (Led V)) (r : V → V → Prop) : V → V → Prop :=
  Relation.Map r (leaderOf l) (leaderOf l)

/-- The sets have no members in common. -/
def Apart (l : List (Led V)) : Prop := l.Pairwise fun s s' => Disjoint s.members s'.members

theorem leaderOf_cons (l : List (Led V)) (h : Apart (s :: l)) (v : V) :
    leaderOf (s :: l) v = s.rep (leaderOf l v) := by
  obtain ⟨hs, -⟩ := List.pairwise_cons.mp h
  unfold leaderOf
  rw [List.find?_cons]
  by_cases hv : v ∈ s.members
  · have hnone : (l.find? fun s => v ∈ s.members) = none := by
      rw [List.find?_eq_none]
      intro s' hs' hmem
      exact Finset.disjoint_left.mp (hs s' hs') hv (of_decide_eq_true hmem)
    rw [decide_eq_true hv, hnone]
    exact (Led.rep_of_mem hv).symm
  · rw [decide_eq_false hv]
    dsimp only
    cases hfind : l.find? fun s => v ∈ s.members with
    | none => exact (Led.rep_of_not_mem hv).symm
    | some s' =>
      have hs' := List.mem_of_find?_eq_some hfind
      exact (Led.rep_of_not_mem (Finset.disjoint_right.mp (hs s' hs') s'.mem)).symm

theorem contractAll_nil (r : V → V → Prop) : contractAll [] r = r := by
  funext v w
  refine propext ⟨?_, fun h => ⟨v, w, h, rfl, rfl⟩⟩
  rintro ⟨a, b, hab, rfl, rfl⟩
  exact hab

theorem contractAll_cons (l : List (Led V)) (h : Apart (s :: l)) (r : V → V → Prop) :
    contractAll (s :: l) r = contract s (contractAll l r) := by
  unfold contractAll contract
  rw [Relation.map_map, funext (leaderOf_cons l h)]
  rfl

/-- An election can be done before or after the contraction of the other sets. -/
theorem contractAll_elect (l : List (Led V)) (h : Apart (s :: l)) (r : V → V → Prop) :
    contractAll l (elect s r) = elect s (contractAll l r) := by
  induction l with
  | nil => rw [contractAll_nil, contractAll_nil]
  | cons s' l ih =>
    obtain ⟨hs, hl⟩ := List.pairwise_cons.mp h
    obtain ⟨hs', hrest⟩ := List.forall_mem_cons.mp hs
    rw [contractAll_cons l hl, contractAll_cons l hl,
      ih (List.pairwise_cons.mpr ⟨hrest, (List.pairwise_cons.mp hl).2⟩), contract_elect hs']

/-- **Elections in sets without common members**: there are no cycles exactly when there are none with
each set taken as one vertex. -/
theorem acyclic_electAll_iff (l : List (Led V)) (h : Apart l) (r : V → V → Prop) :
    Acyclic (electAll l r) ↔ Acyclic (contractAll l r) := by
  induction l generalizing r with
  | nil => rw [contractAll_nil]; rfl
  | cons s l ih =>
    have hl := (List.pairwise_cons.mp h).2
    have hone : electAll (s :: l) r = electAll l (elect s r) := rfl
    rw [hone, ih hl, contractAll_elect l h, acyclic_elect_iff, ← contractAll_cons l h]

/-! ## Elections that make a cycle -/

omit [DecidableEq V] in
/-- A part of a relation without cycles has no cycles. -/
theorem Acyclic.mono {r' : V → V → Prop} (h : Acyclic r') (hle : ∀ v w, r v w → r' v w) :
    Acyclic r :=
  fun v hcycle => h v (Relation.TransGen.mono hle v v hcycle)

omit [DecidableEq V] in
/-- An election never takes back what is waited for. -/
theorem le_electAll (l : List (Led V)) (h : r v w) : electAll l r v w := by
  induction l generalizing r with
  | nil => exact h
  | cons s l ih => exact ih (Or.inl h)

/-- An election in a set whose members wait for each other makes a cycle. -/
theorem not_acyclic_elect (hv : v ∈ s.members) (hw : w ∈ s.members) (h : r v w) :
    ¬ Acyclic (elect s r) := by
  rw [acyclic_elect_iff]
  intro hacyclic
  refine hacyclic s.leader (Relation.TransGen.single ⟨v, w, h, ?_, ?_⟩)
  · exact Led.rep_of_mem hv
  · exact Led.rep_of_mem hw

/-- **An election in a set that has a leader and a member of an earlier set** makes a cycle. -/
theorem not_acyclic_of_nested (before between after : List (Led V)) (r : V → V → Prop)
    (hlead : s.leader ∈ s'.members) (hv : v ∈ s.members) (hne : v ≠ s.leader)
    (hv' : v ∈ s'.members) :
    ¬ Acyclic (electAll (before ++ s :: (between ++ s' :: after)) r) := by
  intro hacyclic
  have hstar : electAll between (elect s (electAll before r)) v s.leader :=
    le_electAll between (Or.inr (Or.inr ⟨hv, hne, rfl⟩))
  refine not_acyclic_elect hv' hlead hstar ?_
  refine hacyclic.mono fun a b hab => ?_
  unfold electAll at hab ⊢
  rw [List.foldl_append, List.foldl_cons, List.foldl_append, List.foldl_cons]
  exact le_electAll after hab

end Contraction
