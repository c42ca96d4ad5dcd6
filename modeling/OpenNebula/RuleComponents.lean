/-
# The reduced rules are the connected components (`VMGroupRule.cc`)

Two rules of a set are linked when a chain of rules that share roles leads from one to the other.
`VMGroupRule::reduce` goes through the set with two iterators and erases what it takes in; it ends, and what
it leaves are the unions of the linked rules (`reduce_components`).  The loop has three kinds of rules
(`Collecting`): those to come, those that are in the rule that is reduced, and those whose component is done.
A rule without roles is a component of its own.
-/
import OpenNebula.AffinityCycles

namespace Affinity

variable {rules : List VMGroupRule} {a b c r : VMGroupRule}

/-! ## Linked rules -/

/-- Two rules of the set have a role in common. -/
def Overlap (rules : List VMGroupRule) (a b : VMGroupRule) : Prop :=
  a ∈ rules ∧ b ∈ rules ∧ ∃ i, a.getLsbD i = true ∧ b.getLsbD i = true

/-- A chain of rules with common roles. -/
def Linked (rules : List VMGroupRule) : VMGroupRule → VMGroupRule → Prop :=
  Relation.ReflTransGen (Overlap rules)

/-- All roles of a rule are in another one. -/
def Within (a b : VMGroupRule) : Prop := ∀ i, a.getLsbD i = true → b.getLsbD i = true

/-- The union of the rules that are linked with `a`. -/
def IsComponent (rules : List VMGroupRule) (a r : VMGroupRule) : Prop :=
  ∀ i, r.getLsbD i = true ↔ ∃ b ∈ rules, Linked rules a b ∧ b.getLsbD i = true

theorem rulesApart_iff : RulesApart a b ↔ ∀ i, ¬ (a.getLsbD i = true ∧ b.getLsbD i = true) := by
  constructor
  · intro h i hi
    have hbit : (a &&& b).getLsbD i = false := by
      rw [show a &&& b = 0 from h]
      exact BitVec.getLsbD_zero
    rw [BitVec.getLsbD_and, hi.1, hi.2] at hbit
    exact absurd hbit (by decide)
  · intro h
    apply BitVec.eq_of_getLsbD_eq
    intro i _
    show (a &&& b).getLsbD i = BitVec.getLsbD 0#32 i
    rw [BitVec.getLsbD_and, BitVec.getLsbD_zero, Bool.and_eq_false_iff]
    by_contra hi
    rw [not_or, Bool.not_eq_false, Bool.not_eq_false] at hi
    exact h i hi

theorem Overlap.symm (h : Overlap rules a b) : Overlap rules b a := by
  obtain ⟨ha, hb, i, hia, hib⟩ := h
  exact ⟨hb, ha, i, hib, hia⟩

theorem Linked.symm (h : Linked rules a b) : Linked rules b a := by
  have : Std.Symm (Overlap rules) := ⟨fun _ _ h => h.symm⟩
  exact Relation.ReflTransGen.stdSymm.symm a b h

theorem IsComponent.of_linked (h : IsComponent rules a r) (hab : Linked rules a b) :
    IsComponent rules b r := by
  intro i
  rw [h i]
  constructor
  · rintro ⟨c, hc, hac, hi⟩
    exact ⟨c, hc, hab.symm.trans hac, hi⟩
  · rintro ⟨c, hc, hbc, hi⟩
    exact ⟨c, hc, hab.trans hbc, hi⟩

/-- A rule is within its component. -/
theorem IsComponent.within (h : IsComponent rules a r) (ha : a ∈ rules) : Within a r :=
  fun i hi => (h i).mpr ⟨a, ha, Relation.ReflTransGen.refl, hi⟩

theorem IsComponent.unique {s : VMGroupRule} (hr : IsComponent rules a r) (hs : IsComponent rules a s) :
    r = s := by
  apply BitVec.eq_of_getLsbD_eq
  intro i _
  rw [Bool.eq_iff_iff, hr i, hs i]

/-! ## The loop -/

/-- All roles of the rule come from rules that are linked with `it`. -/
def Joined (rules : List VMGroupRule) (it reduced : VMGroupRule) : Prop :=
  ∀ i, reduced.getLsbD i = true → ∃ b ∈ rules, Linked rules it b ∧ b.getLsbD i = true

theorem within_or_left (a b : VMGroupRule) : Within a (a ||| b) := by
  intro i hi
  rw [BitVec.getLsbD_or, hi, Bool.true_or]

theorem within_or_right (a b : VMGroupRule) : Within b (a ||| b) := by
  intro i hi
  rw [BitVec.getLsbD_or, hi, Bool.or_true]

/-- **One sweep** takes linked rules in, and no others. -/
theorem joined_sweep {it reduced : VMGroupRule} {list : List VMGroupRule}
    (hlist : ∀ j ∈ list, j ∈ rules) (h : Joined rules it reduced) :
    Joined rules it (sweep reduced list).1 ∧ Within reduced (sweep reduced list).1 ∧
      ∀ j ∈ list, j ∈ (sweep reduced list).2 ∨
        Within j (sweep reduced list).1 ∧ Linked rules it j := by
  induction list generalizing reduced with
  | nil => exact ⟨h, fun _ hi => hi, fun j hj => absurd hj List.not_mem_nil⟩
  | cons jt list ih =>
    obtain ⟨hjt, hrest⟩ := List.forall_mem_cons.mp hlist
    rw [sweep]
    split
    · obtain ⟨hjoined, hwithin, hall⟩ := ih hrest h
      refine ⟨hjoined, hwithin, List.forall_mem_cons.mpr ⟨Or.inl List.mem_cons_self, ?_⟩⟩
      intro j hj
      rcases hall j hj with hj | hj
      · exact Or.inl (List.mem_cons_of_mem jt hj)
      · exact Or.inr hj
    · rename_i hmeet
      have hlinked : Linked rules it jt := by
        by_contra hnot
        apply hmeet
        refine rulesApart_iff.mpr fun i hi => hnot ?_
        obtain ⟨b, hb, hitb, hib⟩ := h i hi.1
        exact hitb.tail ⟨hb, hjt, i, hib, hi.2⟩
      have hor : Joined rules it (reduced ||| jt) := by
        intro i hi
        rw [BitVec.getLsbD_or, Bool.or_eq_true] at hi
        rcases hi with hi | hi
        · exact h i hi
        · exact ⟨jt, hjt, hlinked, hi⟩
      obtain ⟨hjoined, hwithin, hall⟩ := ih hrest hor
      refine ⟨hjoined, fun i hi => hwithin i (within_or_left reduced jt i hi), ?_⟩
      refine List.forall_mem_cons.mpr ⟨Or.inr ⟨?_, hlinked⟩, hall⟩
      exact fun i hi => hwithin i (within_or_right reduced jt i hi)

/-- Each rule is to come, is in the rule that is reduced, or has its component among the results. -/
structure Collecting (rules : List VMGroupRule) (it : VMGroupRule) (after : List VMGroupRule)
    (reduced : VMGroupRule) (reducedSet : List VMGroupRule) : Prop where
  it_mem : it ∈ rules
  after_mem : ∀ j ∈ after, j ∈ rules
  it_within : Within it reduced
  joined : Joined rules it reduced
  found : ∀ c ∈ rules, c ∈ after ∨ (Within c reduced ∧ Linked rules it c) ∨
    ∃ r ∈ reducedSet, IsComponent rules c r
  component : ∀ r ∈ reducedSet, ∃ a ∈ rules, IsComponent rules a r

section Loop

variable {before after reducedSet : List VMGroupRule} {it reduced : VMGroupRule}

/-- A pass that takes rules in. -/
theorem Collecting.merge (h : Collecting rules it after reduced reducedSet) :
    Collecting rules it (sweep reduced after).2 (sweep reduced after).1 reducedSet := by
  obtain ⟨hjoined, hwithin, hall⟩ := joined_sweep h.after_mem h.joined
  refine ⟨h.it_mem, ?_, fun i hi => hwithin i (h.it_within i hi), hjoined, ?_, h.component⟩
  · exact fun j hj => h.after_mem j ((sweep_spec reduced after).2.2.1 hj)
  · intro c hc
    rcases h.found c hc with hafter | ⟨hin, hlinked⟩ | hdone
    · rcases hall c hafter with hafter | hin
      · exact Or.inl hafter
      · exact Or.inr (Or.inl hin)
    · exact Or.inr (Or.inl ⟨fun i hi => hwithin i (hin i hi), hlinked⟩)
    · exact Or.inr (Or.inr hdone)

/-- **A rule that meets no other one any more is a component.** -/
theorem Collecting.isComponent (h : Collecting rules it after reduced reducedSet)
    (hafter : ∀ j ∈ after, RulesApart reduced j) (hset : ∀ r ∈ reducedSet, RulesApart r reduced) :
    IsComponent rules it reduced := by
  intro i
  refine ⟨h.joined i, ?_⟩
  rintro ⟨b, -, hlinked, hi⟩
  -- along the chain all roles are in the reduced rule
  have hwithin : Within b reduced := by
    induction hlinked generalizing i with
    | refl => exact h.it_within
    | tail _ hoverlap ih =>
      obtain ⟨-, hc, j, hjb, hjc⟩ := hoverlap
      have hj := ih j hjb j hjb
      rcases h.found _ hc with hmem | ⟨hin, -⟩ | ⟨r, hr, hcomp⟩
      · exact absurd ⟨hj, hjc⟩ (rulesApart_iff.mp (hafter _ hmem) j)
      · exact hin
      · exact absurd ⟨hcomp.within hc j hjc, hj⟩ (rulesApart_iff.mp (hset r hr) j)
  exact hwithin i hi

/-- The component that is done is among the results. -/
theorem Collecting.insert (h : Collecting rules it after reduced reducedSet)
    (hcomp : IsComponent rules it reduced) :
    (∀ c ∈ rules, c ∈ after ∨ ∃ r ∈ insertRule reduced reducedSet, IsComponent rules c r) ∧
      ∀ r ∈ insertRule reduced reducedSet, ∃ a ∈ rules, IsComponent rules a r := by
  refine ⟨fun c hc => ?_, fun r hr => ?_⟩
  · rcases h.found c hc with hafter | ⟨-, hlinked⟩ | ⟨r, hr, hr'⟩
    · exact Or.inl hafter
    · exact Or.inr ⟨reduced, mem_insertRule.mpr (Or.inl rfl), hcomp.of_linked hlinked⟩
    · exact Or.inr ⟨r, mem_insertRule.mpr (Or.inr hr), hr'⟩
  · rcases mem_insertRule.mp hr with rfl | hr
    · exact ⟨it, h.it_mem, hcomp⟩
    · exact h.component r hr

/-- The next rule is reduced. -/
theorem Collecting.next {next : VMGroupRule} (h : Collecting rules it (next :: after) reduced reducedSet)
    (hcomp : IsComponent rules it reduced) :
    Collecting rules next after next (insertRule reduced reducedSet) := by
  obtain ⟨hnext, hafter⟩ := List.forall_mem_cons.mp h.after_mem
  obtain ⟨hfound, hcomponent⟩ := h.insert hcomp
  refine ⟨hnext, hafter, fun _ hi => hi, ?_, fun c hc => ?_, hcomponent⟩
  · exact fun i hi => ⟨next, hnext, Relation.ReflTransGen.refl, hi⟩
  · rcases hfound c hc with hmem | hdone
    · rcases List.mem_cons.mp hmem with rfl | hmem
      · exact Or.inr (Or.inl ⟨fun _ hi => hi, Relation.ReflTransGen.refl⟩)
      · exact Or.inl hmem
    · exact Or.inr (Or.inr hdone)

/-- **The loop** ends with the components. -/
theorem components_reduceLoop (before : List VMGroupRule) (it : VMGroupRule) (after : List VMGroupRule)
    (reduced : VMGroupRule) (reducedSet : List VMGroupRule)
    (h : Reducing before it after reduced reducedSet)
    (hc : Collecting rules it after reduced reducedSet) :
    (∀ c ∈ rules, ∃ r ∈ reduceLoop before it after reduced reducedSet, IsComponent rules c r) ∧
      ∀ r ∈ reduceLoop before it after reduced reducedSet, ∃ a ∈ rules, IsComponent rules a r := by
  induction before, it, after, reduced, reducedSet using reduceLoop.induct with
  | case1 before it after reduced reducedSet left right hfewer ih =>
    rw [reduceLoop.eq_def]
    dsimp only
    rw [if_pos hfewer]
    refine ih h.merge ?_
    have hleft : left = (reduced, before) := h.sweep_before
    show Collecting rules it (sweep left.1 after).2 (sweep left.1 after).1 reducedSet
    rw [hleft]
    exact hc.merge
  | case2 before it reduced reducedSet left right hall =>
    obtain ⟨hright, hapart⟩ := h.stay hall
    obtain ⟨hfound, hcomponent⟩ := hc.insert (hc.isComponent hapart h.apart)
    rw [reduceLoop, if_neg hall, hright]
    exact ⟨fun c hmem => (hfound c hmem).resolve_left List.not_mem_nil, hcomponent⟩
  | case3 before it reduced reducedSet left next after right hall ih =>
    obtain ⟨hright, hapart⟩ := h.stay hall
    have hright' : right.1 = reduced := congrArg Prod.fst hright
    rw [hright'] at ih
    rw [reduceLoop, if_neg hall, hright]
    exact ih (h.next hapart) (hc.next (hc.isComponent hapart h.apart))

end Loop

/-! ## The result -/

/-- Every rule has its component among the results, which are components. -/
theorem components_reduce (it : VMGroupRule) (after : List VMGroupRule) :
    (∀ c ∈ it :: after, ∃ r ∈ reduce (it :: after), IsComponent (it :: after) c r) ∧
      ∀ r ∈ reduce (it :: after), ∃ a ∈ it :: after, IsComponent (it :: after) a r := by
  refine components_reduceLoop [] it after it [] (reducing_start it after) ⟨List.mem_cons_self,
    fun j hj => List.mem_cons_of_mem it hj, fun _ hi => hi,
    fun i hi => ⟨it, List.mem_cons_self, Relation.ReflTransGen.refl, hi⟩, fun c hc => ?_,
    fun r hr => absurd hr List.not_mem_nil⟩
  rcases List.mem_cons.mp hc with rfl | hc
  · exact Or.inr (Or.inl ⟨fun _ hi => hi, Relation.ReflTransGen.refl⟩)
  · exact Or.inl hc

theorem exists_component (ha : a ∈ rules) : ∃ r ∈ reduce rules, IsComponent rules a r := by
  cases rules with
  | nil => exact absurd ha List.not_mem_nil
  | cons it after => exact (components_reduce it after).1 a ha

theorem sorted_insertRule {rule : VMGroupRule} {list : List VMGroupRule}
    (h : list.Pairwise fun r s => r.toNat < s.toNat) :
    (insertRule rule list).Pairwise fun r s => r.toNat < s.toNat := by
  unfold insertRule
  split
  · exact h
  · rename_i hnew
    have hle : (list.orderedInsert (fun r s => r.toNat ≤ s.toNat) rule).Pairwise
        fun r s => r.toNat ≤ s.toNat :=
      List.Pairwise.orderedInsert rule list (h.imp fun h => le_of_lt h)
    have hnodup : (list.orderedInsert (fun r s => r.toNat ≤ s.toNat) rule).Nodup :=
      (List.perm_orderedInsert _ rule list).nodup_iff.mpr
        (List.nodup_cons.mpr ⟨hnew, h.imp fun h heq => absurd (congrArg BitVec.toNat heq) h.ne⟩)
    refine hle.imp₂ ?_ hnodup
    intro r s hrs hne
    exact lt_of_le_of_ne hrs fun heq => hne (BitVec.eq_of_toNat_eq heq)

/-- The results are the components. -/
theorem mem_reduce_iff : r ∈ reduce rules ↔ ∃ a ∈ rules, IsComponent rules a r := by
  constructor
  · intro hr
    cases rules with
    | nil => exact absurd hr List.not_mem_nil
    | cons it after => exact (components_reduce it after).2 r hr
  · rintro ⟨a, ha, hr⟩
    obtain ⟨s, hs, hs'⟩ := exists_component ha
    rwa [hr.unique hs']

/-- The results are in order, without repetitions. -/
theorem sorted_reduceLoop (before : List VMGroupRule) (it : VMGroupRule) (after : List VMGroupRule)
    (reduced : VMGroupRule) (reducedSet : List VMGroupRule)
    (h : reducedSet.Pairwise fun r s => r.toNat < s.toNat) :
    (reduceLoop before it after reduced reducedSet).Pairwise fun r s => r.toNat < s.toNat := by
  induction before, it, after, reduced, reducedSet using reduceLoop.induct with
  | case1 before it after reduced reducedSet left right hfewer ih =>
    rw [reduceLoop.eq_def]
    dsimp only
    rw [if_pos hfewer]
    exact ih h
  | case2 before it reduced reducedSet left right hall =>
    rw [reduceLoop, if_neg hall]
    exact sorted_insertRule h
  | case3 before it reduced reducedSet left next after right hall ih =>
    rw [reduceLoop, if_neg hall]
    exact ih (sorted_insertRule h)

/-- **`reduce` gives the connected components** of the rules, in order: they have no roles in common, each is
the union of the rules within it, and two roles are in one of them when a chain of rules links them. -/
theorem reduce_components (rules : List VMGroupRule) :
    (reduce rules).Pairwise (fun r s => r.toNat < s.toNat ∧ RulesApart r s) ∧
      (∀ r, r ∈ reduce rules ↔ ∃ a ∈ rules, IsComponent rules a r) ∧
      (∀ r ∈ reduce rules, ∀ i, r.getLsbD i = true ↔ ∃ a ∈ rules, Within a r ∧ a.getLsbD i = true) ∧
      ∀ i j, (∃ r ∈ reduce rules, r.getLsbD i = true ∧ r.getLsbD j = true) ↔
        ∃ a ∈ rules, ∃ b ∈ rules, Linked rules a b ∧ a.getLsbD i = true ∧ b.getLsbD j = true := by
  refine ⟨?_, fun r => mem_reduce_iff, fun r hr i => ?_, fun i j => ?_⟩
  · have hsorted : (reduce rules).Pairwise fun r s => r.toNat < s.toNat := by
      cases rules with
      | nil => exact List.Pairwise.nil
      | cons it after => exact sorted_reduceLoop [] it after it [] List.Pairwise.nil
    exact hsorted.and (pairwise_reduce rules)
  · obtain ⟨a, -, hcomp⟩ := mem_reduce_iff.mp hr
    constructor
    · intro hi
      obtain ⟨b, hb, hab, hib⟩ := (hcomp i).mp hi
      exact ⟨b, hb, (hcomp.of_linked hab).within hb, hib⟩
    · rintro ⟨b, -, hwithin, hi⟩
      exact hwithin i hi
  · constructor
    · rintro ⟨r, hr, hi, hj⟩
      obtain ⟨c, -, hcomp⟩ := mem_reduce_iff.mp hr
      obtain ⟨a, ha, hca, hia⟩ := (hcomp i).mp hi
      obtain ⟨b, hb, hcb, hjb⟩ := (hcomp j).mp hj
      exact ⟨a, ha, b, hb, hca.symm.trans hcb, hia, hjb⟩
    · rintro ⟨a, ha, b, hb, hab, hi, hj⟩
      obtain ⟨r, hr, hcomp⟩ := exists_component ha
      exact ⟨r, hr, hcomp.within ha i hi, (hcomp.of_linked hab).within hb j hj⟩

end Affinity
