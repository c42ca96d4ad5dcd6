/-
# Leaders that wait for each other

After the affinity requirements are set, a pending virtual machine waits for another one when it requires
`CURRENT_VMS = …` of it.  Each set of affined virtual machines that has none running elects a leader
(`waits_scheduleAffinedSet`), so the relation at the end is the one at the start with these elections.  When
no virtual machine is in two roles, there are no cycles exactly when the requirements of the users make none
with each set taken as one vertex, and no affined role with two pending virtual machines is in an affined
rule none of whose virtual machines runs: its leader would wait for itself (`acyclic_iff`).
-/
import OpenNebula.Conjuncts
import OpenNebula.GroupRequirements

open TextNumber Contraction ExprLexer ExprBool RankScheduler

namespace Affinity

/-! ## What requirements ask for -/

namespace Requirements

/-- The requirements contain the conjunct: one of the texts that they put together does. -/
def Asks (c : List Token) : Requirements → Prop
  | text t => ∃ cs, Conjuncts .expr (lex t) cs ∧ c ∈ cs
  | both r s => r.Asks c ∨ s.Asks c

/-- The texts that the requirements put together are expressions, and leave no quote open. -/
def Closed : Requirements → Prop
  | text t => (∃ cs, Conjuncts .expr (lex t) cs) ∧ Even (t.count '"')
  | both r s => r.Closed ∧ s.Closed

/-- Requirements that are added are asked for, and nothing else is. -/
theorem asks_add (r reqs : Requirements) {c : List Token} (hc : c ≠ []) :
    (r.add reqs).Asks c ↔ r.Asks c ∨ reqs.Asks c := by
  have hempty : ∀ s : Requirements, s.toText.isEmpty = true → ¬ s.Asks c := by
    intro s hs hasks
    cases s with
    | text t =>
      obtain ⟨cs, hcs, hmem⟩ := hasks
      rw [toText, List.isEmpty_iff] at hs
      rw [hs] at hcs
      exact hc (List.eq_nil_of_infix_nil (hcs.subtext c hmem))
    | both r s =>
      rw [List.isEmpty_iff, toText] at hs
      exact List.append_ne_nil_of_right_ne_nil _ (List.cons_ne_nil _ _) hs
  unfold add
  split
  · rename_i hreqs
    exact ⟨Or.inl, fun h => h.resolve_right (hempty reqs hreqs)⟩
  · split
    · rename_i hr
      exact ⟨Or.inr, fun h => h.resolve_left (hempty r hr)⟩
    · exact Iff.rfl

theorem even_quotes {r : Requirements} (h : r.Closed) : Even (r.toText.count '"') := by
  induction r with
  | text t => exact h.2
  | both r s ihr ihs =>
    have hopen : (" & (".toList).count '"' = 0 := by decide
    have hclose : (")".toList).count '"' = 0 := by decide
    rw [toText, List.count_append, List.count_append, List.count_append, hopen, hclose]
    exact (ihr h.1).add (ihs h.2)

/-- **The whole text** has the conjuncts of the texts that it is put together from. -/
theorem conjuncts_toText {r : Requirements} (h : r.Closed) (c : List Token) :
    (∃ cs, Conjuncts .expr (lex r.toText) cs ∧ c ∈ cs) ↔ r.Asks c := by
  have hall : ∃ cs, Conjuncts .expr (lex r.toText) cs ∧ (c ∈ cs ↔ r.Asks c) := by
    induction r with
    | text t =>
      obtain ⟨⟨cs, hcs⟩, -⟩ := h
      refine ⟨cs, hcs, fun hc => ⟨cs, hcs, hc⟩, ?_⟩
      rintro ⟨ds, hds, hc⟩
      rwa [hcs.unique hds]
    | both r s ihr ihs =>
      obtain ⟨cs, hcs, hr⟩ := ihr h.1
      obtain ⟨ds, hds, hs⟩ := ihs h.2
      refine ⟨cs ++ ds, ?_, List.mem_append.trans (or_congr hr hs)⟩
      rw [toText, lex_added (Or.inl (even_quotes h.1))]
      exact .and hcs (.paren hds)
  obtain ⟨cs, hcs, hc⟩ := hall
  refine ⟨?_, fun hasks => ⟨cs, hcs, hc.mpr hasks⟩⟩
  rintro ⟨ds, hds, hmem⟩
  exact hc.mp (by rwa [hcs.unique hds])

end Requirements

/-! ## Who waits for whom -/

/-- The virtual machine runs in a host. -/
def Placed (rolesPool : VirtualMachineRolePoolXML) (v : ℤ) : Prop :=
  ∃ vm, rolesPool v = some vm ∧ vm.active = true ∧ vm.hid ≠ -1

/-- The virtual machine is pending and not yet placed. -/
def Unplaced (rolesPool : VirtualMachineRolePoolXML) (pool : VirtualMachinePoolXML) (v : ℤ) : Prop :=
  (pool v).isSome ∧ ¬ Placed rolesPool v

/-- The requirements of `v` contain the conjunct `CURRENT_VMS = w`. -/
def requires (pool : VirtualMachinePoolXML) (v w : ℤ) : Prop :=
  ∃ vm, pool v = some vm ∧ vm.requirements.Asks (lex (currentVms w))

/-- Pending virtual machines that are not yet placed and require others of them. -/
def waits (rolesPool : VirtualMachineRolePoolXML) (pool : VirtualMachinePoolXML) (v w : ℤ) : Prop :=
  Unplaced rolesPool pool v ∧ Unplaced rolesPool pool w ∧ requires pool v w

/-- The pending virtual machines of a set. -/
def pending (pool : VirtualMachinePoolXML) (vms : Finset ℤ) : Finset ℤ :=
  vms.filter fun v => (pool v).isSome

/-- A set without running virtual machines and with more than one pending elects the first of them. -/
def electedSet (rolesPool : VirtualMachineRolePoolXML) (pool : VirtualMachinePoolXML)
    (vms : Finset ℤ) : Option (Led ℤ) :=
  if h : runningHosts rolesPool vms = ∅ ∧ 1 < (pending pool vms).card then
    some ⟨pending pool vms, (pending pool vms).min' (Finset.card_pos.mp (by omega)),
      Finset.min'_mem _ _⟩
  else none

variable {rolesPool : VirtualMachineRolePoolXML} {pool : VirtualMachinePoolXML} {vms : Finset ℤ}

theorem mem_pending {v : ℤ} : v ∈ pending pool vms ↔ v ∈ vms ∧ (pool v).isSome = true :=
  Finset.mem_filter

theorem runningHosts_eq_empty_iff :
    runningHosts rolesPool vms = ∅ ↔ ∀ v ∈ vms, ¬ Placed rolesPool v := by
  unfold runningHosts
  rw [← Finset.not_nonempty_iff_eq_empty, Finset.biUnion_nonempty, not_exists]
  refine forall_congr' fun v => ?_
  rw [not_and]
  refine imp_congr_right fun _ => not_congr ?_
  unfold Placed
  cases rolesPool v with
  | none => simp
  | some vm =>
    by_cases h : vm.active = true ∧ vm.hid ≠ -1
    · simp [h]
    · simp [h]

/-- The tokens of `CURRENT_VMS = v`. -/
theorem lex_currentVms {v : ℤ} (hv : IsInt v) :
    lex (currentVms v) =
      .string (some "CURRENT_VMS".toList) :: (Comparison.eq.tokens ++ [.integer v]) := by
  obtain ⟨m, hm, heq⟩ := lex_intText v
  rw [currentVms_eq, lex_comparison lex_currentVmsName (Or.inr rfl) (Or.inl rfl) hm, heq hv]
  rfl

theorem lex_currentVms_ne_nil {v : ℤ} (hv : IsInt v) : lex (currentVms v) ≠ [] := by
  rw [lex_currentVms hv]
  exact List.cons_ne_nil _ _

/-- `CURRENT_VMS = leader` asks for the leader only. -/
theorem asks_currentVms {leader w : ℤ} (hleader : IsInt leader) (hw : IsInt w) :
    (Requirements.text (currentVms leader)).Asks (lex (currentVms w)) ↔ w = leader := by
  constructor
  · rintro ⟨cs, hcs, hmem⟩
    have hsubtext := hcs.subtext _ hmem
    rw [lex_currentVms hleader, lex_currentVms hw] at hsubtext
    simpa [Comparison.tokens] using hsubtext.eq_of_length rfl
  · rintro rfl
    exact ⟨_, .operand (lex_currentVms hw ▸ .compare rfl), List.mem_singleton_self _⟩

theorem requires_iff {v : ℤ} {vm : VirtualMachineXML} (hv : pool v = some vm) (w : ℤ) :
    requires pool v w ↔ vm.requirements.Asks (lex (currentVms w)) := by
  refine ⟨?_, fun h => ⟨vm, hv, h⟩⟩
  rintro ⟨vm', hv', h⟩
  rw [hv] at hv'
  rwa [Option.some.inj hv']

theorem not_requires {v : ℤ} (hv : pool v = none) (w : ℤ) : ¬ requires pool v w := by
  rintro ⟨vm, hsome, -⟩
  rw [hv] at hsome
  exact absurd hsome (Option.some_ne_none vm).symm

theorem requires_congr {pool' : VirtualMachinePoolXML} {v : ℤ} (h : pool v = pool' v) (w : ℤ) :
    requires pool v w ↔ requires pool' v w := by
  unfold requires
  rw [h]

/-! ## One set -/

theorem follow_none {leader m : ℤ} (hm : pool m = none) : follow leader pool m = pool := by
  rw [follow, hm]

theorem follow_some {leader m : ℤ} {tmp vm : VirtualMachineXML} (hm : pool m = some tmp)
    (hleader : pool leader = some vm) :
    ∃ tmp' vm',
      follow leader pool m = Function.update (Function.update pool leader (some vm')) m (some tmp') ∧
        tmp'.requirements = tmp.requirements.add (.text (currentVms leader)) ∧
        vm'.requirements = vm.requirements.add tmp.requirements := by
  refine ⟨tmp.resetCapacity.1.addRequirements (.text (currentVms leader)),
    ((vm.addCapacity tmp.resetCapacity.2).addRequirements tmp.requirements).addAffined m, ?_, rfl, rfl⟩
  rw [follow, hm, hleader]
  rfl

theorem isSome_follow {leader : ℤ} (hleader : (pool leader).isSome = true) (m v : ℤ) :
    (follow leader pool m v).isSome = (pool v).isSome := by
  obtain ⟨vm, hvm⟩ := Option.isSome_iff_exists.mp hleader
  cases hm : pool m with
  | none => rw [follow_none hm]
  | some tmp =>
    obtain ⟨tmp', vm', hfollow, -, -⟩ := follow_some hm hvm
    rw [hfollow]
    by_cases hv : v = m
    · rw [hv, Function.update_self, hm]
      rfl
    · rw [Function.update_of_ne hv]
      by_cases hv' : v = leader
      · rw [hv', Function.update_self, hvm]
        rfl
      · rw [Function.update_of_ne hv']

/-- A follower: the leader requires what it requires, and it requires the leader. -/
theorem requires_follow {leader m : ℤ} (hne : m ≠ leader) (hleader : (pool leader).isSome = true)
    (hint : IsInt leader) (v : ℤ) {w : ℤ} (hw : IsInt w) :
    requires (follow leader pool m) v w ↔
      requires pool v w ∨ (v = leader ∧ requires pool m w) ∨
        (v = m ∧ (pool m).isSome = true ∧ w = leader) := by
  obtain ⟨vm, hvm⟩ := Option.isSome_iff_exists.mp hleader
  cases htmp : pool m with
  | none =>
    rw [follow_none htmp]
    refine ⟨Or.inl, ?_⟩
    rintro (h | ⟨-, h⟩ | ⟨-, h, -⟩)
    · exact h
    · exact absurd h (not_requires htmp w)
    · exact absurd h Bool.false_ne_true
  | some tmp =>
    obtain ⟨tmp', vm', hfollow, htmp', hvm'⟩ := follow_some htmp hvm
    by_cases hv : v = m
    · subst hv
      have hself : follow leader pool v v = some tmp' := by rw [hfollow, Function.update_self]
      rw [requires_iff hself, requires_iff htmp, htmp',
        Requirements.asks_add _ _ (lex_currentVms_ne_nil hw)]
      refine or_congr_right ?_
      rw [asks_currentVms hint hw]
      exact ⟨fun h => Or.inr ⟨rfl, rfl, h⟩, fun h => (h.resolve_left fun h => hne h.1).2.2⟩
    · by_cases hv' : v = leader
      · subst hv'
        have hself : follow v pool m v = some vm' := by
          rw [hfollow, Function.update_of_ne hv, Function.update_self]
        rw [requires_iff hself, requires_iff hvm, requires_iff htmp, hvm',
          Requirements.asks_add _ _ (lex_currentVms_ne_nil hw)]
        refine or_congr_right ?_
        exact ⟨fun h => Or.inl ⟨rfl, h⟩, fun h => (h.resolve_right fun h => hv h.1).2⟩
      · have hself : follow leader pool m v = pool v := by
          rw [hfollow, Function.update_of_ne hv, Function.update_of_ne hv']
        rw [requires_congr hself]
        refine ⟨Or.inl, ?_⟩
        rintro (h | ⟨h, -⟩ | ⟨h, -⟩)
        · exact h
        · exact absurd h hv'
        · exact absurd h hv

/-- All followers, one after the other. -/
theorem requires_foldl_follow {leader : ℤ} (rest : List ℤ) (hnodup : rest.Nodup)
    (hne : leader ∉ rest) (hleader : (pool leader).isSome = true) (hint : IsInt leader) (v : ℤ)
    {w : ℤ} (hw : IsInt w) :
    requires (rest.foldl (follow leader) pool) v w ↔
      requires pool v w ∨ (v = leader ∧ ∃ m ∈ rest, requires pool m w) ∨
        (v ∈ rest ∧ (pool v).isSome = true ∧ w = leader) := by
  induction rest generalizing pool with
  | nil => simp
  | cons m rest ih =>
    obtain ⟨hm, hrest⟩ := List.nodup_cons.mp hnodup
    rw [List.mem_cons, not_or] at hne
    have hsame : ∀ m' ∈ rest, requires (follow leader pool m) m' w ↔ requires pool m' w := by
      intro m' hm'
      rw [requires_follow (Ne.symm hne.1) hleader hint _ hw]
      refine ⟨?_, Or.inl⟩
      rintro (h | ⟨rfl, -⟩ | ⟨rfl, -⟩)
      · exact h
      · exact absurd hm' hne.2
      · exact absurd hm' hm
    rw [List.foldl_cons, ih hrest hne.2 (by rw [isSome_follow hleader]; exact hleader),
      requires_follow (Ne.symm hne.1) hleader hint _ hw, isSome_follow hleader,
      exists_congr fun m' => and_congr_right (hsame m')]
    constructor
    · rintro ((h | ⟨rfl, h⟩ | ⟨rfl, h⟩) | ⟨rfl, m', hm', h⟩ | ⟨hv, h⟩)
      · exact Or.inl h
      · exact Or.inr (Or.inl ⟨rfl, m, List.mem_cons_self, h⟩)
      · exact Or.inr (Or.inr ⟨List.mem_cons_self, h⟩)
      · exact Or.inr (Or.inl ⟨rfl, m', List.mem_cons_of_mem m hm', h⟩)
      · exact Or.inr (Or.inr ⟨List.mem_cons_of_mem m hv, h⟩)
    · rintro (h | ⟨rfl, m', hm', h⟩ | ⟨hv, h⟩)
      · exact Or.inl (Or.inl h)
      · rcases List.mem_cons.mp hm' with rfl | hm'
        · exact Or.inl (Or.inr (Or.inl ⟨rfl, h⟩))
        · exact Or.inr (Or.inl ⟨rfl, m', hm', h⟩)
      · rcases List.mem_cons.mp hv with rfl | hv
        · exact Or.inl (Or.inr (Or.inr ⟨rfl, h⟩))
        · exact Or.inr (Or.inr ⟨hv, h⟩)

/-- The first pending virtual machine of a set, with those after it. -/
theorem first_pending {leader : ℤ} {rest : List ℤ}
    (h : ((vms.sort (· ≤ ·)).dropWhile fun v => (pool v).isNone) = leader :: rest) :
    rest.Nodup ∧ leader ∉ rest ∧ (pool leader).isSome = true ∧
      (∀ v, v ∈ pending pool vms ↔ v = leader ∨ (v ∈ rest ∧ (pool v).isSome = true)) ∧
      ∀ v ∈ pending pool vms, leader ≤ v := by
  have hne : ((vms.sort (· ≤ ·)).dropWhile fun v => (pool v).isNone) ≠ [] := by
    rw [h]
    exact List.cons_ne_nil _ _
  have hleader : (pool leader).isSome = true := by
    have hhead := List.head_dropWhile_not _ hne
    simp only [h, List.head_cons] at hhead
    rwa [Option.isNone_eq_false_iff] at hhead
  have hsplit := List.takeWhile_append_dropWhile (p := fun v => (pool v).isNone)
    (l := vms.sort (· ≤ ·))
  rw [h] at hsplit
  have hnodup := vms.sort_nodup (· ≤ ·)
  have hsorted := vms.pairwise_sort (· ≤ ·)
  rw [← hsplit] at hnodup hsorted
  obtain ⟨hnot, hrest⟩ := List.nodup_cons.mp (List.nodup_append.mp hnodup).2.1
  have hle := (List.pairwise_cons.mp (List.pairwise_append.mp hsorted).2.1).1
  have hmem : ∀ v, v ∈ pending pool vms ↔ v = leader ∨ (v ∈ rest ∧ (pool v).isSome = true) := by
    intro v
    rw [mem_pending, ← Finset.mem_sort (· ≤ ·), ← hsplit, List.mem_append, List.mem_cons]
    constructor
    · rintro ⟨hfront | rfl | hv, hsome⟩
      · have hnone := List.mem_takeWhile_imp hfront
        rw [Option.isNone_iff_eq_none] at hnone
        rw [hnone] at hsome
        exact absurd hsome Bool.false_ne_true
      · exact Or.inl rfl
      · exact Or.inr ⟨hv, hsome⟩
    · rintro (rfl | ⟨hv, hsome⟩)
      · exact ⟨Or.inr (Or.inl rfl), hleader⟩
      · exact ⟨Or.inr (Or.inr hv), hsome⟩
  refine ⟨hrest, hnot, hleader, hmem, fun v hv => ?_⟩
  rcases (hmem v).mp hv with rfl | ⟨hv, -⟩
  · exact le_refl v
  · exact hle v hv

/-- The hosts of a set are no virtual machine. -/
theorem not_asks_hostRequirements {w : ℤ} (hw : IsInt w) (hosts : List ℤ) :
    ¬ (Requirements.text (hostRequirements hosts "=".toList "|".toList)).Asks
      (lex (currentVms w)) := by
  rintro ⟨cs, hcs, hmem⟩
  have hsubtext := (hcs.subtext _ hmem).subset
  rw [lex_currentVms hw] at hsubtext
  -- no character of the text is a `C`
  have hchar := mem_of_string_mem_lex (hsubtext List.mem_cons_self) 'C' (by decide)
  refine TextList.notMem_intercalate (by decide) _ (fun t ht hmem => ?_) hchar
  obtain ⟨hid, -, rfl⟩ := List.mem_map.mp ht
  rw [List.mem_append, List.mem_append, List.mem_append] at hmem
  rcases hmem with ((hmem | hmem) | hmem) | hmem
  · exact absurd hmem (by decide)
  · exact absurd hmem (by decide)
  · rcases TextList.mem_intText hmem with hminus | hdigit
    · exact absurd hminus (by decide)
    · exact absurd hdigit (by decide)
  · exact absurd hmem (by decide)

/-- **What is done with a set**: nothing, an election, or the requirement of the hosts of the set. -/
theorem scheduleAffinedSet_cases (rolesPool : VirtualMachineRolePoolXML)
    (pool : VirtualMachinePoolXML) (vms : Finset ℤ) :
    ((vms.card ≤ 1 ∨ pending pool vms = ∅) ∧ scheduleAffinedSet rolesPool pool vms = pool) ∨
      (runningHosts rolesPool vms = ∅ ∧ ∃ leader rest,
        ((vms.sort (· ≤ ·)).dropWhile fun v => (pool v).isNone) = leader :: rest ∧
          scheduleAffinedSet rolesPool pool vms = rest.foldl (follow leader) pool) ∨
      (runningHosts rolesPool vms ≠ ∅ ∧ ∃ hosts, ∀ v,
        scheduleAffinedSet rolesPool pool vms v =
          if v ∈ vms then
            (pool v).map (·.addRequirements (.text (hostRequirements hosts "=".toList "|".toList)))
          else pool v) := by
  unfold scheduleAffinedSet
  by_cases hcard : vms.card ≤ 1
  · exact Or.inl ⟨Or.inl hcard, if_pos hcard⟩
  rw [if_neg hcard]
  by_cases hhosts : runningHosts rolesPool vms = ∅
  · dsimp only
    rw [if_pos hhosts]
    cases hfirst : (vms.sort (· ≤ ·)).dropWhile fun v => (pool v).isNone with
    | nil =>
      refine Or.inl ⟨Or.inr (Finset.eq_empty_of_forall_notMem fun v hv => ?_), rfl⟩
      obtain ⟨hmem, hsome⟩ := mem_pending.mp hv
      have hnone := List.dropWhile_eq_nil_iff.mp hfirst v ((Finset.mem_sort _).mpr hmem)
      rw [Option.isNone_iff_eq_none] at hnone
      rw [hnone] at hsome
      exact absurd hsome Bool.false_ne_true
    | cons leader rest => exact Or.inr (Or.inl ⟨hhosts, leader, rest, rfl, rfl⟩)
  · dsimp only
    rw [if_neg hhosts]
    exact Or.inr (Or.inr ⟨hhosts, _, fun _ => rfl⟩)

/-- No set adds or removes pending virtual machines. -/
theorem isSome_scheduleAffinedSet (rolesPool : VirtualMachineRolePoolXML)
    (pool : VirtualMachinePoolXML) (vms : Finset ℤ) (v : ℤ) :
    (scheduleAffinedSet rolesPool pool vms v).isSome = (pool v).isSome := by
  have hfold : ∀ {leader : ℤ} (rest : List ℤ) {pool : VirtualMachinePoolXML},
      (pool leader).isSome = true → (rest.foldl (follow leader) pool v).isSome = (pool v).isSome := by
    intro leader rest
    induction rest with
    | nil => exact fun _ => rfl
    | cons m rest ih =>
      intro pool hleader
      rw [List.foldl_cons, ih (by rw [isSome_follow hleader]; exact hleader), isSome_follow hleader]
  rcases scheduleAffinedSet_cases rolesPool pool vms with
    ⟨-, hsame⟩ | ⟨-, leader, rest, hfirst, hrun⟩ | ⟨-, hosts, hadd⟩
  · rw [hsame]
  · rw [hrun]
    exact hfold rest (first_pending hfirst).2.2.1
  · rw [hadd]
    split
    · exact Option.isSome_map
    · rfl

/-- **One set**: it elects a leader, or nobody waits for anybody else. -/
theorem waits_scheduleAffinedSet (rolesPool : VirtualMachineRolePoolXML)
    (hids : ∀ v, (pool v).isSome = true → IsInt v) (vms : Finset ℤ) :
    waits rolesPool (scheduleAffinedSet rolesPool pool vms) =
      electAll (electedSet rolesPool pool vms).toList (waits rolesPool pool) := by
  have hunplaced : Unplaced rolesPool (scheduleAffinedSet rolesPool pool vms) =
      Unplaced rolesPool pool := by
    funext v
    unfold Unplaced
    rw [isSome_scheduleAffinedSet]
  -- Without an election the requirements are the same.
  have hsame : electedSet rolesPool pool vms = none →
      (∀ v w, IsInt w →
        (requires (scheduleAffinedSet rolesPool pool vms) v w ↔ requires pool v w)) →
      waits rolesPool (scheduleAffinedSet rolesPool pool vms) =
        electAll (electedSet rolesPool pool vms).toList (waits rolesPool pool) := by
    intro hnone hreq
    rw [hnone]
    funext v w
    refine propext ?_
    show Unplaced _ _ v ∧ Unplaced _ _ w ∧ requires _ v w ↔ waits rolesPool pool v w
    rw [hunplaced]
    exact and_congr_right fun _ => and_congr_right fun hw => hreq v w (hids w hw.1)
  rcases scheduleAffinedSet_cases rolesPool pool vms with
    ⟨hfew, hrun⟩ | ⟨hhosts, leader, rest, hfirst, hrun⟩ | ⟨hhosts, hosts, hadd⟩
  · refine hsame (dif_neg fun h => ?_) fun v w _ => by rw [hrun]
    rcases hfew with hcard | hempty
    · exact absurd (h.2.trans_le ((Finset.card_filter_le _ _).trans hcard)) (lt_irrefl 1)
    · rw [hempty] at h
      exact absurd h.2 (by decide)
  · obtain ⟨hnodup, hne, hleader, hmem, hle⟩ := first_pending hfirst
    have hreq : ∀ v {w}, IsInt w → _ := fun v {w} hw =>
      requires_foldl_follow rest hnodup hne hleader (hids leader hleader) v hw
    rw [← hrun] at hreq
    have hself : leader ∈ pending pool vms := (hmem leader).mpr (Or.inl rfl)
    have hpending : ∀ {m w}, m ∈ rest → requires pool m w → m ∈ pending pool vms := by
      rintro m w hm ⟨vm, hvm, -⟩
      exact (hmem m).mpr (Or.inr ⟨hm, by rw [hvm]; rfl⟩)
    by_cases hcard : 1 < (pending pool vms).card
    · have hled : electedSet rolesPool pool vms = some ⟨pending pool vms, leader, hself⟩ := by
        rw [electedSet, dif_pos ⟨hhosts, hcard⟩, Option.some.injEq, Led.mk.injEq]
        exact ⟨rfl, (Finset.min'_eq_iff _ _ _).mpr ⟨hself, hle⟩⟩
      have hfree : ∀ {m}, m ∈ pending pool vms → Unplaced rolesPool pool m := by
        intro m hm
        obtain ⟨hvms, hsome⟩ := mem_pending.mp hm
        exact ⟨hsome, runningHosts_eq_empty_iff.mp hhosts m hvms⟩
      rw [hled]
      funext v w
      refine propext ?_
      show Unplaced _ _ v ∧ Unplaced _ _ w ∧ requires _ v w ↔ elect _ _ v w
      rw [hunplaced]
      constructor
      · rintro ⟨hv, hw, h⟩
        rcases (hreq v (hids w hw.1)).mp h with h | ⟨rfl, m, hm, h⟩ | ⟨hrest, -, rfl⟩
        · exact Or.inl ⟨hv, hw, h⟩
        · exact Or.inr (Or.inl ⟨rfl, m, hpending hm h, hfree (hpending hm h), hw, h⟩)
        · refine Or.inr (Or.inr ⟨(hmem v).mpr (Or.inr ⟨hrest, hv.1⟩), ?_, rfl⟩)
          rintro rfl
          exact hne hrest
      · rintro (⟨hv, hw, h⟩ | ⟨rfl, m, hm, -, hw, h⟩ | ⟨hv, hlead, rfl⟩)
        · exact ⟨hv, hw, (hreq v (hids w hw.1)).mpr (Or.inl h)⟩
        · refine ⟨hfree hself, hw, (hreq _ (hids w hw.1)).mpr ?_⟩
          rcases (hmem m).mp hm with rfl | ⟨hrest, -⟩
          · exact Or.inl h
          · exact Or.inr (Or.inl ⟨rfl, m, hrest, h⟩)
        · have hrest := ((hmem v).mp hv).resolve_left hlead
          refine ⟨hfree hv, hfree hself, (hreq v (hids _ hleader)).mpr ?_⟩
          exact Or.inr (Or.inr ⟨hrest.1, hrest.2, rfl⟩)
    · have hone : ∀ m ∈ pending pool vms, m = leader :=
        fun m hm => Finset.card_le_one.mp (not_lt.mp hcard) m hm leader hself
      refine hsame (dif_neg fun h => hcard h.2) fun v w hw => ?_
      rw [hreq v hw]
      refine ⟨?_, Or.inl⟩
      rintro (h | ⟨-, m, hm, h⟩ | ⟨hrest, hsome, -⟩)
      · exact h
      · rw [hone m (hpending hm h)] at hm
        exact absurd hm hne
      · rw [hone v ((hmem v).mpr (Or.inr ⟨hrest, hsome⟩))] at hrest
        exact absurd hrest hne
  · refine hsame (dif_neg fun h => hhosts h.1) fun v w hw => ?_
    by_cases hv : v ∈ vms
    · have hat := hadd v
      rw [if_pos hv] at hat
      cases hvm : pool v with
      | none =>
        rw [hvm] at hat
        exact iff_of_false (not_requires hat w) (not_requires hvm w)
      | some vm =>
        rw [hvm] at hat
        rw [requires_iff hat, requires_iff hvm]
        refine (Requirements.asks_add _ _ (lex_currentVms_ne_nil hw)).trans ?_
        exact or_iff_left (not_asks_hostRequirements hw hosts)
    · refine requires_congr ?_ w
      rw [hadd, if_neg hv]

/-! ## All sets -/

theorem electedSet_congr {pool' : VirtualMachinePoolXML}
    (h : ∀ v, (pool v).isSome = (pool' v).isSome) (vms : Finset ℤ) :
    electedSet rolesPool pool vms = electedSet rolesPool pool' vms := by
  have hpending : pending pool vms = pending pool' vms :=
    Finset.filter_congr fun v _ => by rw [h v]
  unfold electedSet
  simp only [hpending]

/-- **All sets**, one after the other. -/
theorem waits_foldl (hids : ∀ v, (pool v).isSome = true → IsInt v) (sets : List (Finset ℤ)) :
    waits rolesPool (sets.foldl (scheduleAffinedSet rolesPool) pool) =
      electAll (sets.filterMap (electedSet rolesPool pool)) (waits rolesPool pool) := by
  induction sets generalizing pool with
  | nil => rfl
  | cons vms sets ih =>
    have hcongr : electedSet rolesPool (scheduleAffinedSet rolesPool pool vms) =
        electedSet rolesPool pool :=
      funext fun vms' => electedSet_congr (isSome_scheduleAffinedSet rolesPool pool vms) vms'
    have hids' : ∀ v, (scheduleAffinedSet rolesPool pool vms v).isSome = true → IsInt v := by
      intro v hv
      rw [isSome_scheduleAffinedSet] at hv
      exact hids v hv
    rw [List.foldl_cons, ih hids', hcongr, waits_scheduleAffinedSet _ hids, List.filterMap_cons]
    cases electedSet rolesPool pool vms with
    | none => rfl
    | some s => rfl

/-! ## Reduced rules -/

/-- The rules have no role in common. -/
def RulesApart (a b : VMGroupRule) : Prop := a &&& b = 0

theorem RulesApart.symm {a b : VMGroupRule} (h : RulesApart a b) : RulesApart b a := by
  unfold RulesApart
  rwa [BitVec.and_comm]

theorem rulesApart_or {a b c : VMGroupRule} :
    RulesApart a (b ||| c) ↔ RulesApart a b ∧ RulesApart a c := by
  unfold RulesApart
  rw [BitVec.and_or_distrib_left]
  exact BitVec.or_eq_zero_iff

/-- **One sweep**: rules are taken into the reduced rule, or it meets none of them. -/
theorem sweep_spec (reduced : VMGroupRule) (rules : List VMGroupRule) :
    (∀ b, RulesApart b (sweep reduced rules).1 →
        RulesApart b reduced) ∧
      (∀ b, RulesApart b reduced → (∀ j ∈ rules, RulesApart b j) →
        RulesApart b (sweep reduced rules).1) ∧
      (sweep reduced rules).2 ⊆ rules ∧
      (sweep reduced rules = (reduced, rules) ∧ (∀ j ∈ rules, RulesApart reduced j) ∨
        (sweep reduced rules).2.length < rules.length) := by
  induction rules generalizing reduced with
  | nil =>
    exact ⟨fun _ h => h, fun _ h _ => h, List.Subset.refl _,
      Or.inl ⟨rfl, fun j hj => absurd hj List.not_mem_nil⟩⟩
  | cons jt rules ih =>
    rw [sweep]
    split
    · rename_i hjt
      obtain ⟨hback, hforth, hsub, hrest⟩ := ih reduced
      refine ⟨hback, fun b hb hall => hforth b hb fun j hj => hall j (List.mem_cons_of_mem jt hj),
        List.cons_subset_cons jt hsub, ?_⟩
      rcases hrest with ⟨hsame, hall⟩ | hfewer
      · rw [hsame]
        exact Or.inl ⟨rfl, List.forall_mem_cons.mpr ⟨hjt, hall⟩⟩
      · exact Or.inr (Nat.succ_lt_succ hfewer)
    · obtain ⟨hback, hforth, hsub, -⟩ := ih (reduced ||| jt)
      refine ⟨fun b hb => (rulesApart_or.mp (hback b hb)).1, fun b hb hall => ?_,
        fun j hj => List.mem_cons_of_mem jt (hsub hj),
        Or.inr (Nat.lt_succ_of_le (length_sweep_le _ _))⟩
      exact hforth b (rulesApart_or.mpr ⟨hb, hall jt List.mem_cons_self⟩) fun j hj =>
        hall j (List.mem_cons_of_mem jt hj)

theorem mem_insertRule {rule a : VMGroupRule} {rules : List VMGroupRule} :
    a ∈ insertRule rule rules ↔ a = rule ∨ a ∈ rules := by
  unfold insertRule
  split
  · rename_i hmem
    refine ⟨Or.inr, ?_⟩
    rintro (rfl | h)
    · exact hmem
    · exact h
  · exact List.mem_orderedInsert _

theorem pairwise_insertRule {rule : VMGroupRule} {rules : List VMGroupRule}
    (h : rules.Pairwise RulesApart) (hrule : ∀ a ∈ rules, RulesApart a rule) :
    (insertRule rule rules).Pairwise RulesApart := by
  unfold insertRule
  split
  · exact h
  · refine ((List.perm_orderedInsert _ rule rules).pairwise_iff fun h => h.symm).mpr ?_
    exact List.pairwise_cons.mpr ⟨fun a ha => (hrule a ha).symm, h⟩

theorem sweep_of_apart {reduced : VMGroupRule} {rules : List VMGroupRule}
    (h : ∀ j ∈ rules, RulesApart reduced j) : sweep reduced rules = (reduced, rules) := by
  induction rules with
  | nil => rfl
  | cons jt rules ih =>
    obtain ⟨hjt, hrest⟩ := List.forall_mem_cons.mp h
    rw [sweep, if_pos (show reduced &&& jt = 0 from hjt), ih hrest]

/-- The rules that are reduced are apart from each other, and from the rules to come. -/
structure Reducing (before : List VMGroupRule) (it : VMGroupRule) (after : List VMGroupRule)
    (reduced : VMGroupRule) (reducedSet : List VMGroupRule) : Prop where
  pairwise : reducedSet.Pairwise RulesApart
  apart : ∀ a ∈ reducedSet, RulesApart a reduced
  apart_after : ∀ a ∈ reducedSet, ∀ j ∈ after, RulesApart a j
  of_before : ∀ j ∈ before, ∀ b, (∀ a ∈ reducedSet, RulesApart a b) → RulesApart b j
  of_it : ∀ b, RulesApart b reduced → RulesApart b it

/-- What was reduced is not taken into a later rule. -/
theorem Reducing.sweep_before {before after reducedSet : List VMGroupRule} {it reduced : VMGroupRule}
    (h : Reducing before it after reduced reducedSet) : sweep reduced before = (reduced, before) :=
  sweep_of_apart fun j hj => h.of_before j hj reduced h.apart

/-- A pass that takes rules in. -/
theorem Reducing.merge {before after reducedSet : List VMGroupRule} {it reduced : VMGroupRule}
    (h : Reducing before it after reduced reducedSet) :
    Reducing (sweep reduced before).2 it (sweep (sweep reduced before).1 after).2
      (sweep (sweep reduced before).1 after).1 reducedSet := by
  rw [h.sweep_before]
  obtain ⟨hback, hforth, hsub, -⟩ := sweep_spec reduced after
  refine ⟨h.pairwise, ?_, ?_, h.of_before, ?_⟩
  · exact fun a ha => hforth a (h.apart a ha) (h.apart_after a ha)
  · exact fun a ha j hj => h.apart_after a ha j (hsub hj)
  · exact fun b hb => h.of_it b (hback b hb)

/-- A pass that takes nothing in. -/
theorem Reducing.stay {before after reducedSet : List VMGroupRule} {it reduced : VMGroupRule}
    (h : Reducing before it after reduced reducedSet)
    (hall : ¬ (sweep reduced before).2.length + (sweep (sweep reduced before).1 after).2.length <
      before.length + after.length) :
    sweep (sweep reduced before).1 after = (reduced, after) ∧ ∀ j ∈ after, RulesApart reduced j := by
  rw [h.sweep_before] at hall ⊢
  exact (sweep_spec reduced after).2.2.2.resolve_right fun hfewer =>
    hall (Nat.add_lt_add_left hfewer before.length)

/-- The next rule is reduced. -/
theorem Reducing.next {before after reducedSet : List VMGroupRule} {it next reduced : VMGroupRule}
    (h : Reducing before it (next :: after) reduced reducedSet)
    (hapart : ∀ j ∈ next :: after, RulesApart reduced j) :
    Reducing (before ++ [it]) next after next (insertRule reduced reducedSet) := by
  have hnew : ∀ b, RulesApart reduced b → (∀ a ∈ reducedSet, RulesApart a b) →
      ∀ a ∈ insertRule reduced reducedSet, RulesApart a b := by
    intro b hb hb' a ha
    rcases mem_insertRule.mp ha with rfl | ha
    · exact hb
    · exact hb' a ha
  refine ⟨pairwise_insertRule h.pairwise h.apart, ?_, fun a ha j hj => ?_, fun j hj b hb => ?_,
    fun b hb => hb⟩
  · exact hnew next (hapart next List.mem_cons_self) fun a ha =>
      h.apart_after a ha next List.mem_cons_self
  · have hj' := List.mem_cons_of_mem next hj
    exact hnew j (hapart j hj') (fun a ha => h.apart_after a ha j hj') a ha
  · rcases List.mem_append.mp hj with hj | hj
    · exact h.of_before j hj b fun a ha => hb a (mem_insertRule.mpr (Or.inr ha))
    · rw [List.mem_singleton.mp hj]
      exact h.of_it b (hb reduced (mem_insertRule.mpr (Or.inl rfl))).symm

/-- **The loop** keeps the reduced rules apart. -/
theorem pairwise_reduceLoop (before : List VMGroupRule) (it : VMGroupRule) (after : List VMGroupRule)
    (reduced : VMGroupRule) (reducedSet : List VMGroupRule)
    (h : Reducing before it after reduced reducedSet) :
    (reduceLoop before it after reduced reducedSet).Pairwise RulesApart := by
  induction before, it, after, reduced, reducedSet using reduceLoop.induct with
  | case1 before it after reduced reducedSet left right hfewer ih =>
    rw [reduceLoop.eq_def]
    dsimp only
    rw [if_pos hfewer]
    exact ih h.merge
  | case2 before it reduced reducedSet left right hall =>
    obtain ⟨hright, -⟩ := h.stay hall
    rw [reduceLoop, if_neg hall, hright]
    exact pairwise_insertRule h.pairwise h.apart
  | case3 before it reduced reducedSet left next after right hall ih =>
    obtain ⟨hright, hapart⟩ := h.stay hall
    have hright' : right.1 = reduced := congrArg Prod.fst hright
    rw [hright'] at ih
    rw [reduceLoop, if_neg hall, hright]
    exact ih (h.next hapart)

/-- The beginning of the loop. -/
theorem reducing_start (it : VMGroupRule) (after : List VMGroupRule) : Reducing [] it after it [] := by
  refine ⟨List.Pairwise.nil, ?_, ?_, ?_, fun _ h => h⟩
  · exact fun a ha => absurd ha List.not_mem_nil
  · exact fun a ha => absurd ha List.not_mem_nil
  · exact fun j hj => absurd hj List.not_mem_nil

/-- **The reduced rules** have no roles in common. -/
theorem pairwise_reduce (affined : List VMGroupRule) : (reduce affined).Pairwise RulesApart := by
  cases affined with
  | nil => exact List.Pairwise.nil
  | cons it after => exact pairwise_reduceLoop [] it after it [] (reducing_start it after)

/-! ## Groups -/

variable {g : VMGroupXML}

/-- The sets of affined virtual machines, in order. -/
def affinedSets (g : VMGroupXML) : List (Finset ℤ) :=
  g.affinedRoles.map (fun p => p.2.vms) ++ (reduce g.affined).map g.ruleVms

/-- The elections in the sets of a group. -/
def elections (g : VMGroupXML) (rolesPool : VirtualMachineRolePoolXML)
    (pool : VirtualMachinePoolXML) : List (Led ℤ) :=
  (affinedSets g).filterMap (electedSet rolesPool pool)

/-- The role is one of the rule. -/
def InRule (id : ℤ) (rule : VMGroupRule) : Prop :=
  ∃ i < maxRoles, (i : ℤ) = id ∧ rule.getLsbD i = true

/-- No virtual machine is in two roles. -/
def OneRole (g : VMGroupXML) : Prop := g.roles.Pairwise fun p q => Disjoint p.2.vms q.2.vms

/-- No affined role with two pending virtual machines is in a rule none of whose virtual machines runs. -/
def RolesFree (g : VMGroupXML) (rolesPool : VirtualMachineRolePoolXML)
    (pool : VirtualMachinePoolXML) : Prop :=
  ∀ p ∈ g.affinedRoles, ∀ rule ∈ reduce g.affined, InRule p.1 rule →
    1 < (pending pool p.2.vms).card → runningHosts rolesPool (g.ruleVms rule) ≠ ∅

theorem waits_setAffinityRequirements (g : VMGroupXML) (rolesPool : VirtualMachineRolePoolXML)
    (hids : ∀ v, (pool v).isSome = true → IsInt v) :
    waits rolesPool (g.setAffinityRequirements rolesPool pool) =
      electAll (elections g rolesPool pool) (waits rolesPool pool) := by
  have happend : g.setAffinityRequirements rolesPool pool =
      (affinedSets g).foldl (scheduleAffinedSet rolesPool) pool := List.foldl_append.symm
  rw [happend, waits_foldl hids]
  rfl

theorem mem_ruleVms {rule : VMGroupRule} {v : ℤ} :
    v ∈ g.ruleVms rule ↔ ∃ p ∈ g.roles, InRule p.1 rule ∧ v ∈ p.2.vms := by
  unfold VMGroupXML.ruleVms
  rw [Finset.mem_biUnion]
  constructor
  · rintro ⟨i, hi, hv⟩
    split at hv
    · rename_i hbit
      split at hv
      · rename_i role hrole
        obtain ⟨front, rest, hroles, -⟩ := List.lookup_eq_some_iff.mp hrole
        refine ⟨((i : ℤ), role), ?_, ⟨i, Finset.mem_range.mp hi, rfl, hbit⟩, hv⟩
        rw [hroles]
        exact List.mem_append_right front List.mem_cons_self
      · exact absurd hv (Finset.notMem_empty v)
    · exact absurd hv (Finset.notMem_empty v)
  · rintro ⟨p, hp, ⟨i, hi, hid, hbit⟩, hv⟩
    refine ⟨i, Finset.mem_range.mpr hi, ?_⟩
    have hrole : g.roles.lookup (i : ℤ) = some p.2 := by
      obtain ⟨front, rest, hroles⟩ := List.append_of_mem hp
      refine List.lookup_eq_some_iff.mpr ⟨front, rest, by rw [hroles, hid], fun q hq => ?_⟩
      have hsorted := g.roles_sorted
      rw [hroles, List.map_append, List.map_cons] at hsorted
      have hlt := (List.pairwise_append.mp hsorted).2.2 q.1 (List.mem_map_of_mem hq) p.1
        List.mem_cons_self
      rw [hid]
      exact bne_iff_ne.mpr (ne_of_gt hlt)
    rw [if_pos hbit, hrole]
    exact hv

theorem electedSet_spec {s : Led ℤ} (h : electedSet rolesPool pool vms = some s) :
    s.members = pending pool vms ∧ runningHosts rolesPool vms = ∅ ∧ 1 < (pending pool vms).card := by
  unfold electedSet at h
  split at h
  · rename_i hcond
    rw [← Option.some.inj h]
    exact ⟨rfl, hcond⟩
  · exact absurd h (Option.some_ne_none s).symm

theorem exists_electedSet (hhosts : runningHosts rolesPool vms = ∅)
    (hcard : 1 < (pending pool vms).card) : ∃ s, electedSet rolesPool pool vms = some s :=
  ⟨_, dif_pos ⟨hhosts, hcard⟩⟩

theorem disjoint_pending {vms' : Finset ℤ} (h : Disjoint vms vms') :
    Disjoint (pending pool vms) (pending pool vms') :=
  (h.mono_left (Finset.filter_subset _ _)).mono_right (Finset.filter_subset _ _)

/-- Two different roles of a group. -/
theorem OneRole.disjoint (h : OneRole g) {p q : ℤ × VMGroupRole} (hp : p ∈ g.roles)
    (hq : q ∈ g.roles) (hne : p ≠ q) : Disjoint p.2.vms q.2.vms := by
  have : Std.Symm fun p q : ℤ × VMGroupRole => Disjoint p.2.vms q.2.vms := ⟨fun _ _ h => h.symm⟩
  exact List.Pairwise.forall h hp hq hne

theorem OneRole.disjoint_ruleVms (h : OneRole g) {a b : VMGroupRule} (hab : RulesApart a b) :
    Disjoint (g.ruleVms a) (g.ruleVms b) := by
  rw [Finset.disjoint_left]
  intro v ha hb
  obtain ⟨p, hp, ⟨i, -, hi, hbit⟩, hv⟩ := mem_ruleVms.mp ha
  obtain ⟨q, hq, ⟨j, -, hj, hbit'⟩, hv'⟩ := mem_ruleVms.mp hb
  by_cases heq : p = q
  · subst heq
    obtain rfl : i = j := by omega
    have hand : (a &&& b).getLsbD i = true := by rw [BitVec.getLsbD_and, hbit, hbit']; rfl
    rw [show a &&& b = 0#32 from hab, BitVec.getLsbD_zero] at hand
    exact absurd hand Bool.false_ne_true
  · exact Finset.disjoint_left.mp (h.disjoint hp hq heq) hv hv'

theorem OneRole.disjoint_rule (h : OneRole g) {p : ℤ × VMGroupRole} (hp : p ∈ g.roles)
    {rule : VMGroupRule} (hrule : ¬ InRule p.1 rule) : Disjoint p.2.vms (g.ruleVms rule) := by
  rw [Finset.disjoint_right]
  intro v hv
  obtain ⟨q, hq, hin, hv'⟩ := mem_ruleVms.mp hv
  refine Finset.disjoint_left.mp (h.disjoint hq hp ?_) hv'
  rintro rfl
  exact hrule hin

/-- The sets that elect a leader have no virtual machine in common. -/
theorem apart_elections (h : OneRole g) (hfree : RolesFree g rolesPool pool) :
    Apart (elections g rolesPool pool) := by
  unfold Apart elections affinedSets
  rw [List.pairwise_filterMap, List.pairwise_append, List.pairwise_map, List.pairwise_map]
  have hone : ∀ {vms vms' : Finset ℤ}, Disjoint vms vms' →
      ∀ s, electedSet rolesPool pool vms = some s →
        ∀ s', electedSet rolesPool pool vms' = some s' → Disjoint s.members s'.members := by
    intro vms vms' hdisjoint s hs s' hs'
    rw [(electedSet_spec hs).1, (electedSet_spec hs').1]
    exact disjoint_pending hdisjoint
  refine ⟨(List.Pairwise.sublist List.filter_sublist h).imp hone,
    (pairwise_reduce g.affined).imp fun hab => hone (h.disjoint_ruleVms hab), ?_⟩
  intro vms hvms vms' hvms' s hs s' hs'
  obtain ⟨p, hp, rfl⟩ := List.mem_map.mp hvms
  obtain ⟨rule, hrule, rfl⟩ := List.mem_map.mp hvms'
  obtain ⟨-, -, hcard⟩ := electedSet_spec hs
  have hout : ¬ InRule p.1 rule := fun hin => hfree p hp rule hrule hin hcard (electedSet_spec hs').2.1
  exact hone (h.disjoint_rule (List.mem_of_mem_filter hp) hout) s hs s' hs'

/-- **An affined role in an affined rule**: the leader of the rule gets what the virtual machines of the
role require, which is the presence of one of them. -/
theorem not_acyclic_of_role (hids : ∀ v, (pool v).isSome = true → IsInt v)
    {p : ℤ × VMGroupRole} (hp : p ∈ g.affinedRoles) {rule : VMGroupRule}
    (hrule : rule ∈ reduce g.affined) (hin : InRule p.1 rule)
    (hcard : 1 < (pending pool p.2.vms).card)
    (hhosts : runningHosts rolesPool (g.ruleVms rule) = ∅) :
    ¬ Acyclic (waits rolesPool (g.setAffinityRequirements rolesPool pool)) := by
  have hsub : p.2.vms ⊆ g.ruleVms rule :=
    fun v hv => mem_ruleVms.mpr ⟨p, List.mem_of_mem_filter hp, hin, hv⟩
  have hsub' : pending pool p.2.vms ⊆ pending pool (g.ruleVms rule) :=
    Finset.filter_subset_filter _ hsub
  have hhosts' : runningHosts rolesPool p.2.vms = ∅ :=
    runningHosts_eq_empty_iff.mpr fun v hv => runningHosts_eq_empty_iff.mp hhosts v (hsub hv)
  obtain ⟨s, hs⟩ := exists_electedSet hhosts' hcard
  obtain ⟨s', hs'⟩ := exists_electedSet hhosts (hcard.trans_le (Finset.card_le_card hsub'))
  have hmem : s ∈ (g.affinedRoles.map fun p => p.2.vms).filterMap (electedSet rolesPool pool) :=
    List.mem_filterMap.mpr ⟨_, List.mem_map_of_mem hp, hs⟩
  have hmem' : s' ∈ ((reduce g.affined).map g.ruleVms).filterMap (electedSet rolesPool pool) :=
    List.mem_filterMap.mpr ⟨_, List.mem_map_of_mem hrule, hs'⟩
  obtain ⟨before, between, hleft⟩ := List.append_of_mem hmem
  obtain ⟨between', after, hright⟩ := List.append_of_mem hmem'
  have hall : elections g rolesPool pool =
      before ++ s :: (between ++ between' ++ s' :: after) := by
    unfold elections affinedSets
    rw [List.filterMap_append, hleft, hright, List.append_assoc, List.cons_append, List.append_assoc]
  obtain ⟨hmembers, -, -⟩ := electedSet_spec hs
  obtain ⟨hmembers', -, -⟩ := electedSet_spec hs'
  have hnested : s.members ⊆ s'.members := by
    rw [hmembers, hmembers']
    exact hsub'
  rw [← hmembers] at hcard
  obtain ⟨v, hv, hne⟩ := Finset.exists_mem_ne hcard s.leader
  rw [waits_setAffinityRequirements g rolesPool hids, hall]
  exact not_acyclic_of_nested before _ after _ (hnested s.mem) hv hne (hnested hv)

/-- **Leaders stay schedulable**: sets without common members make a cycle only when the requirements of
the users do so with each set taken as one vertex.  When no virtual machine is in two roles, this and free
roles are all that is needed, and both are needed. -/
theorem acyclic_iff (g : VMGroupXML) (rolesPool : VirtualMachineRolePoolXML)
    (pool : VirtualMachinePoolXML) (hids : ∀ v, (pool v).isSome = true → IsInt v) :
    (Apart (elections g rolesPool pool) →
      (Acyclic (waits rolesPool (g.setAffinityRequirements rolesPool pool)) ↔
        Acyclic (contractAll (elections g rolesPool pool) (waits rolesPool pool)))) ∧
    (OneRole g →
      (Acyclic (waits rolesPool (g.setAffinityRequirements rolesPool pool)) ↔
        RolesFree g rolesPool pool ∧
          Acyclic (contractAll (elections g rolesPool pool) (waits rolesPool pool)))) := by
  have hapart : Apart (elections g rolesPool pool) →
      (Acyclic (waits rolesPool (g.setAffinityRequirements rolesPool pool)) ↔
        Acyclic (contractAll (elections g rolesPool pool) (waits rolesPool pool))) := by
    intro hapart
    rw [waits_setAffinityRequirements g rolesPool hids]
    exact acyclic_electAll_iff _ hapart _
  refine ⟨hapart, fun hone => ⟨fun hacyclic => ?_, ?_⟩⟩
  · have hfree : RolesFree g rolesPool pool := by
      intro p hp rule hrule hin hcard hhosts
      exact not_acyclic_of_role hids hp hrule hin hcard hhosts hacyclic
    exact ⟨hfree, (hapart (apart_elections hone hfree)).mp hacyclic⟩
  · rintro ⟨hfree, hacyclic⟩
    exact (hapart (apart_elections hone hfree)).mpr hacyclic

/-- A group with an affined role of two virtual machines. -/
def pairGroup : VMGroupXML where
  roles := [(0, ⟨.AFFINED, {1, 2}⟩)]
  affined := []
  roles_sorted := by decide
  affined_sorted := by decide

/-- The user of the second virtual machine asks for the first one. -/
def askedRequirements : Requirements :=
  .initial "!(PUBLIC_CLOUD = YES)".toList (some "CURRENT_VMS = 1".toList)

/-- Two pending virtual machines, the second one with requirements. -/
def askingPool : VirtualMachinePoolXML := fun v =>
  if v = 1 then some ⟨.text [], 1, 1024, 0, [], ∅⟩
  else if v = 2 then some ⟨askedRequirements, 1, 1024, 0, [], ∅⟩
  else none

theorem asks_askedRequirements : askedRequirements.Asks (lex (currentVms 1)) := by
  have htext : askedRequirements = .text askedRequirements.toText := rfl
  have hlex : lex askedRequirements.toText =
      [.sym '!', .sym '(', .string (some "PUBLIC_CLOUD".toList), .sym '=', .string (some "YES".toList),
        .sym ')', .sym '&', .sym '(', .string (some "CURRENT_VMS".toList), .sym '=', .integer 1,
        .sym ')'] := by
    decide
  have hautomatic : Conjuncts .operand [.sym '!', .sym '(', .string (some "PUBLIC_CLOUD".toList),
      .sym '=', .string (some "YES".toList), .sym ')'] [] :=
    .not (.paren (.operand (.compare (c := .eq) rfl)))
  have huser : Conjuncts .operand [.sym '(', .string (some "CURRENT_VMS".toList), .sym '=',
      .integer 1, .sym ')'] [[.string (some "CURRENT_VMS".toList), .sym '=', .integer 1]] :=
    .paren (.operand (.compare (c := .eq) rfl))
  rw [htext, lex_currentVms (by decide)]
  refine ⟨_, ?_, List.mem_singleton_self _⟩
  rw [hlex]
  exact .and (.operand hautomatic) huser

/-- A requirement of a user makes the leader wait for itself. -/
theorem asked_leader_waits :
    OneRole pairGroup ∧ RolesFree pairGroup (fun _ => none) askingPool ∧
      ¬ Acyclic (waits (fun _ => none)
        (pairGroup.setAffinityRequirements (fun _ => none) askingPool)) := by
  have hone : OneRole pairGroup := by unfold OneRole; decide
  have hids : ∀ v, (askingPool v).isSome = true → IsInt v := by
    intro v hv
    unfold askingPool at hv
    split_ifs at hv with h h
    · rw [h]
      decide
    · rw [h]
      decide
    · exact absurd hv Bool.false_ne_true
  have hfree : ∀ v, ¬ Placed (fun _ => none) v := by
    rintro v ⟨vm, hvm, -⟩
    exact absurd hvm (Option.some_ne_none vm).symm
  refine ⟨hone, ?_, fun hacyclic => ?_⟩
  · intro p hp rule hrule
    exact absurd hrule List.not_mem_nil
  · obtain ⟨-, hcontract⟩ :=
      ((acyclic_iff pairGroup (fun _ => none) askingPool hids).2 hone).mp hacyclic
    have hsecond : Unplaced (fun _ => none) askingPool 2 := ⟨rfl, hfree 2⟩
    have hfirst : Unplaced (fun _ => none) askingPool 1 := ⟨rfl, hfree 1⟩
    have hrequires : requires askingPool 2 1 := ⟨_, rfl, asks_askedRequirements⟩
    have hleader : ∀ v ∈ [1, 2],
        leaderOf (elections pairGroup (fun _ => none) askingPool) v = 1 := by
      decide
    exact hcontract 1 (.single ⟨2, 1, ⟨hsecond, hfirst, hrequires⟩,
      hleader 2 (by decide), hleader 1 (by decide)⟩)

/-- A group with an affined role of two virtual machines in a rule with another role. -/
def leaderGroup : VMGroupXML where
  roles := [(0, ⟨.AFFINED, {1, 2}⟩), (1, ⟨.NONE, {3}⟩)]
  affined := [3]
  roles_sorted := by decide
  affined_sorted := by decide

/-- Three pending virtual machines without requirements. -/
def freePool : VirtualMachinePoolXML := fun v =>
  if v ∈ [1, 2, 3] then some ⟨.text [], 1, 1024, 0, [], ∅⟩ else none

theorem isInt_of_freePool (v : ℤ) (hv : (freePool v).isSome = true) : IsInt v := by
  unfold freePool at hv
  split_ifs at hv with h
  · simp only [List.mem_cons, List.not_mem_nil, or_false] at h
    unfold IsInt
    omega
  · exact absurd hv Bool.false_ne_true

theorem leader_waits :
    OneRole leaderGroup ∧
      ¬ Acyclic (waits (fun _ => none)
        (leaderGroup.setAffinityRequirements (fun _ => none) freePool)) := by
  refine ⟨by unfold OneRole; decide, ?_⟩
  have hrole : ((0 : ℤ), (⟨.AFFINED, {1, 2}⟩ : VMGroupRole)) ∈ leaderGroup.affinedRoles :=
    List.mem_filter.mpr ⟨List.mem_cons_self, by decide⟩
  have hrule : (3 : VMGroupRule) ∈ reduce leaderGroup.affined := by
    show (3 : VMGroupRule) ∈ reduceLoop [] 3 [] 3 []
    rw [reduceLoop.eq_def]
    decide
  refine not_acyclic_of_role isInt_of_freePool hrole hrule ⟨0, by decide, rfl, by decide⟩ (by decide) ?_
  refine runningHosts_eq_empty_iff.mpr fun v _ => ?_
  rintro ⟨vm, hvm, -⟩
  exact absurd hvm (Option.some_ne_none vm).symm

end Affinity
