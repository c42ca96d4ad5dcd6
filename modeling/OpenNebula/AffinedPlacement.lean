/-
# Affined virtual machines are not placed together

The scheduler takes care of affined virtual machines in two places.  The group passes give each follower of
a leader the requirement `CURRENT_VMS = leader`, and `dispatch` offers the host of the leader to them.  In
between, though, `match_schedule` tries the followers on their hosts while the leader is on none, and takes
what does not match out of the list that `dispatch` goes through.  So no follower is in the plan that has its
leader (`not_dispatched_follower`), also when its own requirements and datastores match the host
(`leader_placed_alone`), and the set is placed together only where there is nobody to place
(`placed_together_iff`).

The followers' requirement survives all later passes (`Bound`), because these only add clean texts.
-/
import OpenNebula.AffinityCycles
import OpenNebula.GroupRequirements

open TextNumber ExprBool
open SchedulerManagerDriver (exampleHost)

namespace RankScheduler

open Affinity (Placed VirtualMachinePoolXML VirtualMachineRolePoolXML VMGroupRole currentVms follow
  scheduleAffinedSet scheduleAffinedSet_cases isSome_scheduleAffinedSet first_pending affinedSets
  isSome_follow follow_none follow_some mem_ruleVms)

variable {F δ : Type} {lib : CLibrary F} {pool : VirtualMachinePoolXML} {c : Text} {l v : ℤ}

/-! ## A requirement that stays -/

/-- The pending virtual machine requires `c`. -/
def Bound (lib : CLibrary F) (c : Text) (v : ℤ) (pool : VirtualMachinePoolXML) : Prop :=
  ∃ vm, pool v = some vm ∧ Implies lib vm.requirements c

theorem Bound.addRequirements (h : Bound lib c v pool) {reqs : ℤ → Text}
    (hreqs : ∀ w, CleanOrNil lib (reqs w)) (vms : Finset ℤ) :
    Bound lib c v (addRequirements reqs pool vms) := by
  obtain ⟨vm, hvm, himp⟩ := h
  by_cases hv : v ∈ vms
  · refine ⟨vm.addRequirements (.text (reqs v)), (if_pos hv).trans ?_, himp.add (hreqs v)⟩
    rw [hvm]
    rfl
  · exact ⟨vm, (if_neg hv).trans hvm, himp⟩

theorem isSome_addRequirements (reqs : ℤ → Text) (pool : VirtualMachinePoolXML) (vms : Finset ℤ) (w : ℤ) :
    (addRequirements reqs pool vms w).isSome = (pool w).isSome := by
  unfold addRequirements
  split
  · exact Option.isSome_map
  · rfl

/-- Empty requirements change nothing. -/
theorem addRequirements_nil (pool : VirtualMachinePoolXML) (vms : Finset ℤ) :
    addRequirements (fun _ => []) pool vms = pool := by
  funext v
  unfold addRequirements
  split_ifs
  · cases pool v with
    | none => rfl
    | some vm => rfl
  · rfl

/-! ## Affined sets -/

/-- A follower that is not bound yet is bound by the requirement of its leader, and stays bound. -/
theorem Bound.follow (hv : Bound lib c v pool) (hleader : (pool l).isSome = true) (hne : v ≠ l) (m : ℤ) :
    Bound lib c v (follow l pool m) := by
  obtain ⟨vm, hvm, himp⟩ := hv
  obtain ⟨lvm, hlvm⟩ := Option.isSome_iff_exists.mp hleader
  cases hm : pool m with
  | none =>
    rw [follow_none hm]
    exact ⟨vm, hvm, himp⟩
  | some tmp =>
    obtain ⟨tmp', vm', hfollow, htmp', -⟩ := follow_some hm hlvm
    rw [hfollow]
    by_cases hvm' : v = m
    · subst hvm'
      obtain rfl := Option.some.inj (hm.symm.trans hvm)
      refine ⟨tmp', Function.update_self _ _ _, ?_⟩
      rw [htmp']
      exact himp.add (Or.inr (clean_currentVms l))
    · refine ⟨vm, ?_, himp⟩
      rw [Function.update_of_ne hvm', Function.update_of_ne hne, hvm]

theorem Bound.foldl_follow (rest : List ℤ) (hv : Bound lib c v pool) (hleader : (pool l).isSome = true)
    (hne : v ≠ l) : Bound lib c v (rest.foldl (Affinity.follow l) pool) := by
  induction rest generalizing pool with
  | nil => exact hv
  | cons m rest ih =>
    exact ih (hv.follow hleader hne m) (by rw [isSome_follow hleader]; exact hleader)

/-- A follower of the leader. -/
theorem bound_foldl_follow {rest : List ℤ} (hmem : v ∈ rest) (hsome : (pool v).isSome = true)
    (hleader : (pool l).isSome = true) (hne : v ≠ l) :
    Bound lib (currentVms l) v (rest.foldl (follow l) pool) := by
  induction rest generalizing pool with
  | nil => exact absurd hmem List.not_mem_nil
  | cons m rest ih =>
    have hleader' : (follow l pool m l).isSome = true := by
      rw [isSome_follow hleader]
      exact hleader
    rcases List.mem_cons.mp hmem with rfl | hmem
    · obtain ⟨tmp, htmp⟩ := Option.isSome_iff_exists.mp hsome
      obtain ⟨lvm, hlvm⟩ := Option.isSome_iff_exists.mp hleader
      obtain ⟨tmp', vm', hfollow, htmp', -⟩ := follow_some htmp hlvm
      refine Bound.foldl_follow rest ⟨tmp', ?_, ?_⟩ hleader' hne
      · rw [hfollow, Function.update_self]
      · rw [htmp']
        exact implies_add_self (clean_currentVms l) _
    · exact ih hmem (by rw [isSome_follow hleader]; exact hsome) hleader'

/-- The first of the pending virtual machines of a set. -/
def IsLeader (pool : VirtualMachinePoolXML) (vms : Finset ℤ) (l : ℤ) : Prop :=
  l ∈ Affinity.pending pool vms ∧ ∀ w ∈ Affinity.pending pool vms, l ≤ w

theorem Bound.scheduleAffinedSet {rolesPool : VirtualMachineRolePoolXML} {vms : Finset ℤ}
    (h : Bound lib c v pool) (hnot : v ∈ vms → ∃ w ∈ vms, w < v ∧ (pool w).isSome = true) :
    Bound lib c v (Affinity.scheduleAffinedSet rolesPool pool vms) := by
  rcases scheduleAffinedSet_cases rolesPool pool vms with
    ⟨-, hsame⟩ | ⟨-, leader, rest, hfirst, hrun⟩ | ⟨-, hosts, hadd⟩
  · rwa [hsame]
  · obtain ⟨-, -, hleader, hmem, hle⟩ := first_pending hfirst
    rw [hrun]
    refine h.foldl_follow rest hleader ?_
    -- the leader of a set with `v` is another virtual machine
    rintro rfl
    obtain ⟨hv, -⟩ := Affinity.mem_pending.mp ((hmem v).mpr (Or.inl rfl))
    obtain ⟨w, hw, hlt, hsome⟩ := hnot hv
    exact absurd (hle w (Affinity.mem_pending.mpr ⟨hw, hsome⟩)) (not_le.mpr hlt)
  · rw [show Affinity.scheduleAffinedSet rolesPool pool vms = RankScheduler.addRequirements
      (fun _ => Affinity.hostRequirements hosts "=".toList "|".toList) pool vms from funext hadd]
    exact h.addRequirements
      (fun _ => cleanOrNil_hostRequirements (Or.inl rfl) rfl (Or.inr rfl) hosts) vms

/-- **The set of the leader** binds its followers. -/
theorem bound_scheduleAffinedSet {rolesPool : VirtualMachineRolePoolXML} {vms : Finset ℤ}
    (hidle : ∀ w ∈ vms, ¬ Placed rolesPool w) (hl : IsLeader pool vms l) (hv : v ∈ vms)
    (hsome : (pool v).isSome = true) (hne : v ≠ l) :
    Bound lib (currentVms l) v (scheduleAffinedSet rolesPool pool vms) := by
  have hpending : v ∈ Affinity.pending pool vms := Affinity.mem_pending.mpr ⟨hv, hsome⟩
  rcases scheduleAffinedSet_cases rolesPool pool vms with
    ⟨hfew, -⟩ | ⟨-, leader, rest, hfirst, hrun⟩ | ⟨hhosts, -⟩
  · rcases hfew with hcard | hempty
    · exact absurd (Finset.card_le_one.mp hcard v hv l (Affinity.mem_pending.mp hl.1).1) hne
    · rw [hempty] at hpending
      exact absurd hpending (Finset.notMem_empty v)
  · obtain ⟨-, -, hleader, hmem, hle⟩ := first_pending hfirst
    obtain rfl : leader = l := le_antisymm (hle l hl.1) (hl.2 leader ((hmem leader).mpr (Or.inl rfl)))
    rw [hrun]
    exact bound_foldl_follow (((hmem v).mp hpending).resolve_left hne).1 hsome hleader hne
  · exact absurd (Affinity.runningHosts_eq_empty_iff.mpr hidle) hhosts

theorem isSome_foldl_sets {rolesPool : VirtualMachineRolePoolXML} (sets : List (Finset ℤ)) (w : ℤ) :
    (sets.foldl (scheduleAffinedSet rolesPool) pool w).isSome = (pool w).isSome := by
  induction sets generalizing pool with
  | nil => rfl
  | cons vms sets ih => rw [List.foldl_cons, ih, isSome_scheduleAffinedSet]

theorem Bound.foldl_sets {rolesPool : VirtualMachineRolePoolXML} (sets : List (Finset ℤ))
    (h : Bound lib c v pool) (hlt : l < v) (hleader : (pool l).isSome = true)
    (hsets : ∀ vms ∈ sets, v ∈ vms → l ∈ vms) :
    Bound lib c v (sets.foldl (Affinity.scheduleAffinedSet rolesPool) pool) := by
  induction sets generalizing pool with
  | nil => exact h
  | cons vms sets ih =>
    refine ih (h.scheduleAffinedSet fun hv => ⟨l, hsets vms List.mem_cons_self hv, hlt, hleader⟩) ?_ ?_
    · rw [isSome_scheduleAffinedSet]
      exact hleader
    · exact fun vms' hvms' => hsets vms' (List.mem_cons_of_mem vms hvms')

/-! ## The other passes -/

theorem Bound.setAntiaffinityRequirements (g : VMGroupXML) (h : Bound lib c v pool) :
    Bound lib c v (g.setAntiaffinityRequirements pool) := by
  unfold VMGroupXML.setAntiaffinityRequirements
  dsimp only
  refine List.foldlRecOn (motive := Bound lib c v) _ _ ?_ ?_
  · refine List.foldlRecOn (motive := Bound lib c v) _ _ h ?_
    intro pool h p hp
    have hpolicy := of_decide_eq_true (List.mem_filter.mp hp).2
    refine h.addRequirements (fun w => ?_) _
    rw [hpolicy.1]
    exact cleanOrNil_affinityRequirements w _
  · intro pool h rule _
    refine List.foldlRecOn (motive := Bound lib c v) _ _ h ?_
    intro pool h i _
    split
    · exact h.addRequirements (fun _ => cleanOrNil_ruleRequirements g rule i) _
    · exact h

theorem Bound.setHostRequirements (g : VMGroupXML) (h : Bound lib c v pool) :
    Bound lib c v (g.setHostRequirements pool) := by
  unfold VMGroupXML.setHostRequirements
  refine List.foldlRecOn (motive := Bound lib c v) _ _ h ?_
  intro pool h p _
  refine (h.addRequirements (fun _ => ?_) _).addRequirements (fun _ => ?_) _
  · exact cleanOrNil_hostRequirements (Or.inl rfl) rfl (Or.inr rfl) _
  · exact cleanOrNil_hostRequirements (Or.inr rfl) rfl (Or.inl rfl) _

theorem isSome_setAntiaffinityRequirements (g : VMGroupXML) (pool : VirtualMachinePoolXML) (w : ℤ) :
    (g.setAntiaffinityRequirements pool w).isSome = (pool w).isSome := by
  unfold VMGroupXML.setAntiaffinityRequirements
  refine List.foldlRecOn (motive := fun pool' : VirtualMachinePoolXML =>
    (pool' w).isSome = (pool w).isSome) _ _ ?_ ?_
  · refine List.foldlRecOn (motive := fun pool' : VirtualMachinePoolXML =>
    (pool' w).isSome = (pool w).isSome) _ _ rfl ?_
    intro pool' h p _
    rw [isSome_addRequirements, h]
  · intro pool' h rule _
    refine List.foldlRecOn (motive := fun pool' : VirtualMachinePoolXML =>
    (pool' w).isSome = (pool w).isSome) _ _ h ?_
    intro pool' h i _
    cases g.roles.lookup (i : ℤ) with
    | some r => exact (isSome_addRequirements _ _ _ _).trans h
    | none => exact h

theorem isSome_setHostRequirements (g : VMGroupXML) (pool : VirtualMachinePoolXML) (w : ℤ) :
    (g.setHostRequirements pool w).isSome = (pool w).isSome := by
  unfold VMGroupXML.setHostRequirements
  refine List.foldlRecOn (motive := fun pool' : VirtualMachinePoolXML =>
    (pool' w).isSome = (pool w).isSome) _ _ rfl ?_
  intro pool' h p _
  rw [isSome_addRequirements, isSome_addRequirements, h]

/-! ## All groups -/

/-- The affined sets are what the affinity pass goes through. -/
theorem setAffinityRequirements_eq (g : Affinity.VMGroupXML) (rolesPool : VirtualMachineRolePoolXML)
    (pool : VirtualMachinePoolXML) :
    g.setAffinityRequirements rolesPool pool = (affinedSets g).foldl (scheduleAffinedSet rolesPool) pool :=
  List.foldl_append.symm

theorem isSome_doVmGroups (rolesPool : VirtualMachineRolePoolXML) (groups : List VMGroupXML)
    (pool : VirtualMachinePoolXML) (w : ℤ) :
    (doVmGroups rolesPool groups pool w).isSome = (pool w).isSome := by
  unfold doVmGroups
  refine List.foldlRecOn (motive := fun pool' : VirtualMachinePoolXML =>
    (pool' w).isSome = (pool w).isSome) _ _ rfl ?_
  intro pool' h g _
  rw [isSome_setHostRequirements, isSome_setAntiaffinityRequirements, setAffinityRequirements_eq,
    isSome_foldl_sets, h]

theorem Bound.doVmGroups {rolesPool : VirtualMachineRolePoolXML} (groups : List VMGroupXML)
    (h : Bound lib c v pool) (hlt : l < v) (hleader : (pool l).isSome = true)
    (hsets : ∀ g ∈ groups, ∀ vms ∈ affinedSets g.toVMGroupXML, v ∈ vms → l ∈ vms) :
    Bound lib c v (RankScheduler.doVmGroups rolesPool groups pool) := by
  induction groups generalizing pool with
  | nil => exact h
  | cons g groups ih =>
    unfold RankScheduler.doVmGroups
    rw [List.foldl_cons]
    refine ih ?_ ?_ fun g' hg' => hsets g' (List.mem_cons_of_mem g hg')
    · refine Bound.setHostRequirements g (Bound.setAntiaffinityRequirements g ?_)
      rw [setAffinityRequirements_eq]
      exact h.foldl_sets _ hlt hleader (hsets g List.mem_cons_self)
    · rw [isSome_setHostRequirements, isSome_setAntiaffinityRequirements, setAffinityRequirements_eq,
        isSome_foldl_sets]
      exact hleader

/-- **The groups bind the followers** of a leader whose set is one of the affined sets. -/
theorem bound_doVmGroups {rolesPool : VirtualMachineRolePoolXML} {groups : List VMGroupXML}
    {g : VMGroupXML} (hg : g ∈ groups) {vms : Finset ℤ} (hvms : vms ∈ affinedSets g.toVMGroupXML)
    (hsets : ∀ g ∈ groups, ∀ vms ∈ affinedSets g.toVMGroupXML, v ∈ vms → l ∈ vms)
    (hidle : ∀ w ∈ vms, ¬ Placed rolesPool w) (hl : IsLeader pool vms l) (hv : v ∈ vms)
    (hsome : (pool v).isSome = true) (hne : v ≠ l) :
    Bound lib (currentVms l) v (doVmGroups rolesPool groups pool) := by
  obtain ⟨front, rest, rfl⟩ := List.append_of_mem hg
  obtain ⟨before, after, hsplit⟩ := List.append_of_mem hvms
  have hlt : l < v := lt_of_le_of_ne (hl.2 v (Affinity.mem_pending.mpr ⟨hv, hsome⟩)) (Ne.symm hne)
  have hleader := (Affinity.mem_pending.mp hl.1).2
  -- the sets before the one of the leader keep who is pending
  have hkeep : ∀ w, (before.foldl (scheduleAffinedSet rolesPool)
      (doVmGroups rolesPool front pool) w).isSome = (pool w).isSome := by
    intro w
    rw [isSome_foldl_sets, isSome_doVmGroups]
  have hl' : IsLeader (before.foldl (scheduleAffinedSet rolesPool) (doVmGroups rolesPool front pool))
      vms l := by
    unfold IsLeader
    simp only [Affinity.mem_pending, hkeep]
    simpa only [IsLeader, Affinity.mem_pending] using hl
  have hsets' : ∀ vms' ∈ after, v ∈ vms' → l ∈ vms' := by
    intro vms' hvms'
    refine hsets g (List.mem_append_right front List.mem_cons_self) vms' ?_
    rw [hsplit]
    exact List.mem_append_right before (List.mem_cons_of_mem vms hvms')
  have hset : Bound lib (currentVms l) v (scheduleAffinedSet rolesPool (before.foldl
      (scheduleAffinedSet rolesPool) (doVmGroups rolesPool front pool)) vms) :=
    bound_scheduleAffinedSet hidle hl' hv (by rw [hkeep]; exact hsome) hne
  have hbound := @Bound.foldl_sets _ _ _ _ _ _ rolesPool after hset hlt
    (by rw [isSome_scheduleAffinedSet, hkeep]; exact hleader) hsets'
  unfold doVmGroups
  rw [List.foldl_append, List.foldl_cons]
  refine Bound.doVmGroups rest ?_ hlt ?_ fun g' hg' =>
    hsets g' (List.mem_append_right front (List.mem_cons_of_mem g hg'))
  · refine Bound.setHostRequirements g (Bound.setAntiaffinityRequirements g ?_)
    rw [setAffinityRequirements_eq, hsplit, List.foldl_append, List.foldl_cons]
    exact hbound
  · rw [isSome_setHostRequirements, isSome_setAntiaffinityRequirements, setAffinityRequirements_eq,
      isSome_foldl_sets]
    exact (isSome_doVmGroups rolesPool front pool l).trans hleader

/-! ## Matching and dispatching -/

/-- A host that lists the leader neither among its virtual machines nor among the dispatched ones does not
match a follower. -/
theorem matchHost_of_bound {P : Policies F δ} {vm : Affinity.VirtualMachineXML} {host : HostXML F δ}
    (himp : Implies P.lib vm.requirements (currentVms l)) (hint : 0 ≤ l ∧ IsInt l) (hvms : l ∉ host.vms)
    (hnone : host.dispatchedVms = ∅) (sr : Request) : matchHost P vm sr host = false := by
  have hfalse : evalBool P.lib host.search vm.requirements.toText ≠ some true := by
    intro htrue
    rcases mem_of_evalBool_currentVms hint.2 hint.1 (himp _ htrue) with hmem | hmem
    · exact hvms hmem
    · rw [hnone] at hmem
      exact absurd hmem (Finset.notMem_empty l)
  have hne : vm.requirements.toText.isEmpty = false := by
    rw [Bool.eq_false_iff]
    intro hempty
    refine hfalse ?_
    rw [List.isEmpty_iff.mp hempty]
    rfl
  unfold matchHost
  rw [hne, Bool.false_or, beq_eq_false_iff_ne.mpr hfalse, Bool.and_false]

/-- The matching of a virtual machine leaves the hosts as they are, and takes only itself out of the list. -/
theorem matchVm_frame (P : Policies F δ) (vms : Machines) (st : State F δ) (w : ℤ) :
    (matchVm P vms st w).hosts = st.hosts ∧ (matchVm P vms st w).plan = st.plan ∧
      ((matchVm P vms st w).vmResources = st.vmResources ∨
        (matchVm P vms st w).vmResources = st.vmResources.erase w) := by
  unfold matchVm
  cases vms.pool w with
  | none => exact ⟨rfl, rfl, Or.inl rfl⟩
  | some vm =>
    dsimp only
    split_ifs
    · exact ⟨rfl, rfl, Or.inr rfl⟩
    · exact ⟨rfl, rfl, Or.inr rfl⟩
    · exact ⟨rfl, rfl, Or.inl rfl⟩
    · exact ⟨rfl, rfl, Or.inr rfl⟩
    · split
      · exact ⟨rfl, rfl, Or.inl rfl⟩
      · exact ⟨rfl, rfl, Or.inr rfl⟩

/-- A virtual machine without hosts is taken out of the list. -/
theorem matchVm_of_noHosts {P : Policies F δ} {vms : Machines} {st : State F δ}
    {vm : Affinity.VirtualMachineXML} (hvm : vms.pool v = some vm)
    (hnone : ∀ p ∈ st.hosts, ∀ sr, matchHost P vm sr p.2 = false) :
    (matchVm P vms st v).vmResources = st.vmResources.erase v := by
  have hhosts : ∀ sr, matchHosts P st.hosts (vms.info v) vm sr = [] := by
    intro sr
    unfold matchHosts
    rw [List.filter_eq_nil_iff]
    intro hid _
    cases hget : st.hosts.get hid with
    | none => exact Bool.false_ne_true
    | some host =>
      obtain ⟨front, rest, hsplit, -⟩ := List.lookup_eq_some_iff.mp hget
      have hmem : (hid, host) ∈ st.hosts := by
        rw [hsplit]
        exact List.mem_append_right front List.mem_cons_self
      rw [Option.any_some, hnone _ hmem sr]
      exact Bool.false_ne_true
  unfold matchVm
  rw [hvm]
  dsimp only
  rw [hhosts, if_pos List.isEmpty_nil, ite_self]
  rfl

/-- What the matching keeps. -/
theorem matchSchedule_frame (P : Policies F δ) (vms : Machines) (pending : List ℤ) (st : State F δ) :
    (pending.foldl (matchVm P vms) st).hosts = st.hosts ∧
      (pending.foldl (matchVm P vms) st).plan = st.plan ∧
        (pending.foldl (matchVm P vms) st).vmResources.Sublist st.vmResources := by
  induction pending generalizing st with
  | nil => exact ⟨rfl, rfl, List.Sublist.refl _⟩
  | cons w pending ih =>
    obtain ⟨hhosts, hplan, hlist⟩ := matchVm_frame P vms st w
    obtain ⟨ihhosts, ihplan, ihlist⟩ := ih (matchVm P vms st w)
    refine ⟨ihhosts.trans hhosts, ihplan.trans hplan, ihlist.trans ?_⟩
    rcases hlist with hlist | hlist
    · rw [hlist]
    · rw [hlist]
      exact List.erase_sublist

/-- The action that is committed is for the virtual machine. -/
theorem plan_commit (P : Policies F δ) (vms : Machines) (w : ℤ) (vm : Affinity.VirtualMachineXML)
    (sr : Request) (hid dsid : ℤ) (picked : List (ℤ × ℤ)) (st : State F δ) :
    ∀ a ∈ (commit P vms w vm sr hid dsid picked st).plan, a ∈ st.plan ∨ a.vmid = w := by
  intro a ha
  rcases List.mem_append.mp ha with ha | ha
  · exact Or.inl ha
  · exact Or.inr (by rw [List.mem_singleton.mp ha])

/-- The plan gets an action for the virtual machine, or it stays. -/
theorem plan_tryHosts (P : Policies F δ) (vms : Machines) (w : ℤ) (vm : Affinity.VirtualMachineXML)
    (hids : List ℤ) (st : State F δ) :
    ∀ a ∈ (tryHosts P vms w vm hids st).plan, a ∈ st.plan ∨ a.vmid = w := by
  induction hids generalizing st with
  | nil => exact fun a ha => Or.inl ha
  | cons hid hids ih =>
    intro a ha
    unfold tryHosts at ha
    dsimp only at ha
    cases hget : st.hosts.get hid with
    | none =>
      rw [hget] at ha
      exact ih st a ha
    | some host =>
      rw [hget] at ha
      dsimp only at ha
      split at ha
      · exact ih st a ha
      split at ha
      · exact ih st a ha
      split at ha
      · exact ih st a ha
      generalize pickDatastore st (vms.info w) _ host _ = ds at ha
      cases ds with
      | none => exact ih st a ha
      | some dsid =>
        dsimp only at ha
        split at ha
        · have hrest := ih _ a ha
          exact hrest
        · have hcommit := plan_commit P vms w vm _ hid dsid _ _ a ha
          exact hcommit

theorem plan_dispatchVm (P : Policies F δ) (vms : Machines) (st : State F δ) (w : ℤ) :
    ∀ a ∈ (dispatchVm P vms st w).plan, a ∈ st.plan ∨ a.vmid = w := by
  unfold dispatchVm
  cases vms.pool w with
  | none => exact fun a ha => Or.inl ha
  | some vm =>
    dsimp only
    split_ifs
    · exact fun a ha => Or.inl ha
    · exact plan_tryHosts P vms w vm _ st

/-- **Only what is in the list is dispatched.** -/
theorem mem_vmResources_of_dispatch (P : Policies F δ) (vms : Machines) (st : State F δ)
    (hplan : st.plan = []) : ∀ a ∈ dispatch P vms st, a.vmid ∈ st.vmResources := by
  have hrun : ∀ (ids : List ℤ) (st : State F δ), ∀ a ∈ (ids.foldl (dispatchVm P vms) st).plan,
      a ∈ st.plan ∨ a.vmid ∈ ids := by
    intro ids
    induction ids with
    | nil => exact fun st a ha => Or.inl ha
    | cons w ids ih =>
      intro st a ha
      rcases ih _ a ha with ha | ha
      · rcases plan_dispatchVm P vms st w a ha with ha | ha
        · exact Or.inl ha
        · exact Or.inr (by rw [ha]; exact List.mem_cons_self)
      · exact Or.inr (List.mem_cons_of_mem w ha)
  intro a ha
  rcases hrun _ st a ha with ha | ha
  · rw [hplan] at ha
    exact absurd ha List.not_mem_nil
  · exact (List.perm_insertionSort _ _).mem_iff.mp (List.mem_reverse.mp ha)

/-- **A virtual machine that matches no host** is not in the plan. -/
theorem not_dispatched_of_noHosts {P : Policies F δ} {x : Input F δ} {vm : Affinity.VirtualMachineXML}
    (hvm : x.machines.pool v = some vm) (hv : v ∈ x.pending)
    (hnone : ∀ p ∈ x.hosts, ∀ sr, matchHost P vm sr p.2 = false) :
    ∀ a ∈ schedule P x, a.vmid ≠ v := by
  have hnodup : x.pending.Nodup := x.pending_sorted.imp fun h => ne_of_lt h
  unfold schedule matchSchedule
  split_ifs with hempty
  · -- nothing has been matched, so nothing is dispatched
    have hsame : ∀ w, dispatchVm P x.machines x.start w = x.start := by
      intro w
      unfold dispatchVm
      cases x.machines.pool w with
      | none => rfl
      | some vm => exact ite_self _
    have hrun : ∀ ids : List ℤ, ids.foldl (dispatchVm P x.machines) x.start = x.start := by
      intro ids
      induction ids with
      | nil => rfl
      | cons w ids ih => rw [List.foldl_cons, hsame, ih]
    intro a ha
    unfold dispatch at ha
    rw [hrun] at ha
    exact absurd ha List.not_mem_nil
  · obtain ⟨before, after, hsplit⟩ := List.append_of_mem hv
    have hplan := (matchSchedule_frame P x.machines x.pending x.start).2.1
    intro a ha heq
    have hmem := mem_vmResources_of_dispatch P x.machines _ hplan a ha
    rw [heq, hsplit, List.foldl_append, List.foldl_cons] at hmem
    obtain ⟨hhosts, -, hfront⟩ := matchSchedule_frame P x.machines before x.start
    obtain ⟨-, -, hrest⟩ := matchSchedule_frame P x.machines after
      (matchVm P x.machines (before.foldl (matchVm P x.machines) x.start) v)
    have hremoved := matchVm_of_noHosts (P := P) hvm
      (show ∀ p ∈ (before.foldl (matchVm P x.machines) x.start).hosts, ∀ sr, matchHost P vm sr p.2 = false by
        rw [hhosts]
        exact hnone)
    have hin := hrest.subset hmem
    rw [hremoved] at hin
    exact ((hnodup.sublist hfront).mem_erase_iff.mp hin).1 rfl

/-! ## Affined roles -/

/-- A virtual machine of a role is in no set without its role. -/
theorem mem_affinedSets {x : Input F δ} {g g' : VMGroupXML} (hg : g ∈ x.groups) (hg' : g' ∈ x.groups)
    {p : ℤ × VMGroupRole} (hp : p ∈ g.roles) (hv : v ∈ p.2.vms) (hl : l ∈ p.2.vms) {vms : Finset ℤ}
    (hvms : vms ∈ affinedSets g'.toVMGroupXML) (hmem : v ∈ vms) : l ∈ vms := by
  have hsame : ∀ q ∈ g'.roles, v ∈ q.2.vms → q = p := by
    intro q hq hvq
    by_contra hne
    have : Std.Symm fun p q : ℤ × VMGroupRole => Disjoint p.2.vms q.2.vms := ⟨fun _ _ h => h.symm⟩
    have hdisj := List.Pairwise.forall x.one_role (List.mem_flatMap.mpr ⟨g', hg', hq⟩)
      (List.mem_flatMap.mpr ⟨g, hg, hp⟩) hne
    exact Finset.disjoint_left.mp hdisj hvq hv
  rcases List.mem_append.mp hvms with hvms | hvms
  · obtain ⟨q, hq, rfl⟩ := List.mem_map.mp hvms
    rw [hsame q (List.mem_filter.mp hq).1 hmem]
    exact hl
  · obtain ⟨rule, -, rfl⟩ := List.mem_map.mp hvms
    obtain ⟨q, hq, hin, hvq⟩ := mem_ruleVms.mp hmem
    obtain rfl := hsame q hq hvq
    exact mem_ruleVms.mpr ⟨q, hq, hin, hl⟩

/-- No virtual machine of the set is active in a host, and those that the scheduler has are pending. -/
structure Idle (x : Input F δ) (vms : Finset ℤ) : Prop where
  placed : ∀ w ∈ vms, ¬ Placed x.rolesPool w
  pending : ∀ w ∈ Affinity.pending x.pool vms, (x.info w).resched = false

/-- The virtual machine asks for no PCI device, no NUMA node and no network. -/
def Plain (x : Input F δ) (v : ℤ) : Prop :=
  (x.info v).pci = [] ∧ (x.info v).topology = none ∧ (x.info v).nics = [] ∧
    ∀ vm, x.pool v = some vm → vm.numaNodes = []

/-- The virtual machine's own requirements, capacity and datastores match the host. -/
def Fits (P : Policies F δ) (x : Input F δ) (v hid : ℤ) : Prop :=
  hid ∈ (x.info v).prereqHosts ∧ ∃ vm host dsid ds,
    x.pool v = some vm ∧ x.hosts.get hid = some host ∧
      matchHost P vm (getCapacity v (x.info v) vm) host = true ∧
        dsid ∈ (x.info v).prereqDs ∧ x.datastores.get dsid = some ds ∧
          matchSystemDs (x.info v) (getCapacity v (x.info v) vm) ds = true ∧ host.clusterId ∈ ds.clusterIds

/-- With the action for the leader of the set, there is one in the same host for each other pending virtual
machine that fits. -/
def PlacedTogether (P : Policies F δ) (x : Input F δ) (vms : Finset ℤ) : Prop :=
  ∀ l, IsLeader x.pool vms l → ∀ a ∈ schedule P x, a.vmid = l →
    ∀ v ∈ Affinity.pending x.pool vms, v ≠ l → Fits P x v a.hid →
      ∃ b ∈ schedule P x, b.vmid = v ∧ b.hid = a.hid

/-- **No follower is in the plan** of a cycle that has to place its leader. -/
theorem not_dispatched_follower (P : Policies F δ) (x : Input F δ) {g : VMGroupXML} (hg : g ∈ x.groups)
    {p : ℤ × VMGroupRole} (hp : p ∈ g.roles) (haffined : p.2.policy = .AFFINED)
    (hidle : Idle x p.2.vms) (hl : IsLeader x.pool p.2.vms l)
    (hv : v ∈ Affinity.pending x.pool p.2.vms) (hne : v ≠ l) : ∀ a ∈ schedule P x, a.vmid ≠ v := by
  obtain ⟨hlmem, hlsome⟩ := Affinity.mem_pending.mp hl.1
  obtain ⟨hvmem, hvsome⟩ := Affinity.mem_pending.mp hv
  have hset : p.2.vms ∈ affinedSets g.toVMGroupXML := by
    refine List.mem_append_left _ (List.mem_map.mpr ⟨p, List.mem_filter.mpr ⟨hp, ?_⟩, rfl⟩)
    exact decide_eq_true ⟨haffined, Finset.one_lt_card.mpr ⟨v, hvmem, l, hlmem, hne⟩⟩
  have hbound : Bound P.lib (currentVms l) v x.machines.pool :=
    bound_doVmGroups hg hset
      (fun g' hg' vms hvms hmem => mem_affinedSets hg hg' hp hvmem hlmem hvms hmem)
      hidle.placed hl hvmem hvsome hne
  obtain ⟨vm, hvm, himp⟩ := hbound
  refine not_dispatched_of_noHosts hvm ((x.mem_pending v).mpr hvsome) ?_
  intro q hq sr
  -- the leader is pending, so no host lists it
  have hnot : l ∉ q.2.vms := by
    intro hmem
    have hresched := x.listed_resched q hq l hmem hlsome
    rw [hidle.pending l hl.1] at hresched
    exact Bool.false_ne_true hresched
  exact matchHost_of_bound himp (x.pending_int l ((x.mem_pending l).mpr hlsome)) hnot
    (x.not_dispatched q hq) sr

/-- No host matches the virtual machine with what its groups ask for. -/
def NoHost (P : Policies F δ) (x : Input F δ) (l : ℤ) : Prop :=
  ∀ vm, x.machines.pool l = some vm → ∀ q ∈ x.hosts, ∀ sr, matchHost P vm sr q.2 = false

/-- **Affined virtual machines are placed together** just when the leader gets no host that another pending
virtual machine of the set fits.  This is so when no host matches the leader, and when no other pending
virtual machine fits a host. -/
theorem placed_together_iff (P : Policies F δ) (x : Input F δ) {g : VMGroupXML} (hg : g ∈ x.groups)
    {p : ℤ × VMGroupRole} (hp : p ∈ g.roles) (haffined : p.2.policy = .AFFINED)
    (hidle : Idle x p.2.vms) (hl : IsLeader x.pool p.2.vms l) :
    (PlacedTogether P x p.2.vms ↔ ∀ a ∈ schedule P x, a.vmid = l →
      ∀ v ∈ Affinity.pending x.pool p.2.vms, v ≠ l → ¬ Fits P x v a.hid) ∧
    (NoHost P x l ∨ (∀ v ∈ Affinity.pending x.pool p.2.vms, v ≠ l → ∀ hid, ¬ Fits P x v hid) →
      PlacedTogether P x p.2.vms) := by
  have hiff : PlacedTogether P x p.2.vms ↔ ∀ a ∈ schedule P x, a.vmid = l →
      ∀ v ∈ Affinity.pending x.pool p.2.vms, v ≠ l → ¬ Fits P x v a.hid := by
    constructor
    · intro h a ha hvmid v hv hne hfits
      obtain ⟨b, hb, hbv, -⟩ := h l hl a ha hvmid v hv hne hfits
      exact not_dispatched_follower P x hg hp haffined hidle hl hv hne b hb hbv
    · intro h l' hl' a ha hvmid v hv hne hfits
      obtain rfl : l' = l := le_antisymm (hl'.2 l hl.1) (hl.2 l' hl'.1)
      exact absurd hfits (h a ha hvmid v hv hne)
  refine ⟨hiff, fun hcond => hiff.mpr fun a ha hvmid v hv hne => ?_⟩
  rcases hcond with hnone | hnone
  · obtain ⟨-, hlsome⟩ := Affinity.mem_pending.mp hl.1
    have hsome : (x.machines.pool l).isSome = true := by
      rw [Input.machines, isSome_doVmGroups]
      exact hlsome
    obtain ⟨vm, hvm⟩ := Option.isSome_iff_exists.mp hsome
    exact absurd hvmid (not_dispatched_of_noHosts hvm ((x.mem_pending l).mpr hlsome) (hnone vm hvm) a ha)
  · exact hnone v hv hne a.hid

/-- A virtual machine that is deployed to the host 0. -/
def smallVm : Affinity.VirtualMachineXML := ⟨.text [], 1, 1, 1, [], ∅⟩

/-- Its other attributes. -/
def smallInfo : VmInfo := ⟨false, false, -1, -1, [], [0], [0], [], [], [], none⟩

theorem sorted_pair : [(1 : ℤ), 2].Pairwise (· < ·) := by decide

theorem sorted_role :
    ([((0 : ℤ), (⟨.AFFINED, {1, 2}⟩ : VMGroupRole))].map Prod.fst).Pairwise (· < ·) :=
  List.pairwise_singleton _ _

theorem sorted_rules : ([] : List Affinity.VMGroupRule).Pairwise fun r s => r.toNat < s.toNat :=
  List.Pairwise.nil

/-- The virtual machines 1 and 2 are in an affined role and pending. -/
def pairInput : Input ℤ Unit where
  pending := [1, 2]
  pool := fun v => if v = 1 ∨ v = 2 then some smallVm else none
  info := fun _ => smallInfo
  rolesPool := fun _ => none
  groups := [{
    roles := [(0, ⟨.AFFINED, {1, 2}⟩)]
    affined := []
    roles_sorted := sorted_role
    affined_sorted := sorted_rules
    antiAffined := []
    hostAffined := fun _ => []
    hostAntiAffined := fun _ => [] }]
  hosts := [(0, ⟨0, exampleHost, [], 0, 0, 1000000, 1000, 1000, [], (), ∅⟩)]
  datastores := [(0, ⟨[0], 1000, true, true⟩)]
  images := []
  nets := []
  pending_sorted := sorted_pair
  mem_pending := by
    intro v
    by_cases hv : v = 1 ∨ v = 2
    · rw [if_pos hv]
      simpa using hv
    · rw [if_neg hv]
      simpa using hv
  pending_int := by decide
  one_role := by decide
  listed_resched := by decide
  not_dispatched := by decide

/-- All hosts and datastores in their order, and no devices. -/
def plainPolicies : Policies ℤ Unit :=
  ⟨SchedulerManagerDriver.plainLibrary, ⟨fun _ _ => true, fun d _ => d⟩, fun _ => 0, fun _ hosts => hosts,
    fun _ datastores => datastores, fun _ _ nets => nets, 30, false⟩

/-- The leader of the pair takes the capacity of the other one. -/
theorem scheduleAffinedSet_pairInput :
    scheduleAffinedSet pairInput.rolesPool pairInput.pool {1, 2} = follow 1 pairInput.pool 2 := by
  have hsort : ({1, 2} : Finset ℤ).sort (· ≤ ·) = [1, 2] := by
    rw [Finset.sort_insert (· ≤ ·) (by decide) (by decide), Finset.sort_singleton]
  have hhosts : Affinity.runningHosts pairInput.rolesPool {1, 2} = ∅ :=
    Affinity.runningHosts_eq_empty_iff.mpr fun w _ ⟨_, hsome, _⟩ => Option.some_ne_none _ hsome.symm
  unfold scheduleAffinedSet
  rw [if_neg (by decide), hsort]
  dsimp only
  rw [if_pos hhosts]
  rfl

/-- The virtual machines after the group passes: the leader has the capacity of both. -/
theorem machines_pairInput : pairInput.machines =
    ⟨fun v => if v = 1 then some ⟨.text [], 2, 2, 2, [], {2}⟩
      else if v = 2 then some ⟨.text (currentVms 1), 0, 0, 0, [], ∅⟩ else none, fun _ => smallInfo⟩ := by
  have hgroups : doVmGroups pairInput.rolesPool pairInput.groups pairInput.pool =
      addRequirements (fun _ => []) (addRequirements (fun _ => [])
        (scheduleAffinedSet pairInput.rolesPool pairInput.pool {1, 2}) {1, 2}) {1, 2} := rfl
  unfold Input.machines
  rw [hgroups, addRequirements_nil, addRequirements_nil, scheduleAffinedSet_pairInput]
  refine congrArg (Machines.mk · _) ?_
  funext v
  by_cases h₂ : v = 2
  · subst h₂
    rfl
  · by_cases h₁ : v = 1
    · subst h₁
      have hcpu : (1 : ℚ) + ((1 : ℚ).num.tdiv (1 : ℚ).den : ℤ) = 2 := by norm_num
      show some (Affinity.VirtualMachineXML.mk (.text []) (1 + ((1 : ℚ).num.tdiv (1 : ℚ).den : ℤ))
        2 2 [] {2}) = some ⟨.text [], 2, 2, 2, [], {2}⟩
      rw [hcpu]
    · rw [if_neg h₁, if_neg h₂, follow]
      show Function.update (Function.update pairInput.pool 1 _) 2 _ v = none
      rw [Function.update_of_ne h₂, Function.update_of_ne h₁]
      exact if_neg fun h => h.elim h₁ h₂

/-- The plan has the leader only. -/
theorem schedule_pairInput : schedule plainPolicies pairInput = [⟨1, 0, 0, false, []⟩] := by
  unfold schedule
  rw [machines_pairInput]
  decide +kernel

theorem isLeader_pairInput : IsLeader pairInput.pool {1, 2} 1 := by
  refine ⟨Affinity.mem_pending.mpr ⟨by decide, rfl⟩, ?_⟩
  intro w hw
  rcases Finset.mem_insert.mp (Affinity.mem_pending.mp hw).1 with rfl | hw
  · exact le_refl _
  · rw [Finset.mem_singleton.mp hw]
    decide

theorem idle_pairInput : Idle pairInput {1, 2} :=
  ⟨fun _ _ ⟨_, hsome, _⟩ => Option.some_ne_none _ hsome.symm, fun _ _ => rfl⟩

theorem fits_pairInput : Fits plainPolicies pairInput 2 0 :=
  ⟨List.mem_singleton_self 0, smallVm, _, 0, _, rfl, rfl, by decide +kernel, List.mem_singleton_self 0, rfl,
    by decide, List.mem_singleton_self 0⟩

/-- The two virtual machines of the pair are not placed together. -/
theorem not_placed_together_pair : ¬ PlacedTogether plainPolicies pairInput {1, 2} := by
  intro h
  have hiff := (placed_together_iff plainPolicies pairInput
    (g := pairInput.groups.head (List.cons_ne_nil _ _)) (p := (0, ⟨.AFFINED, {1, 2}⟩)) (List.head_mem _)
    (List.mem_singleton_self _) rfl idle_pairInput isLeader_pairInput).1
  refine hiff.mp h ⟨1, 0, 0, false, []⟩ ?_ rfl 2 ?_ (by decide) fits_pairInput
  · rw [schedule_pairInput]
    exact List.mem_singleton_self _
  · exact Affinity.mem_pending.mpr ⟨Finset.mem_insert_of_mem (Finset.mem_singleton_self 2), rfl⟩

/-- **The leader is placed alone**, although the other virtual machine fits in its host. -/
theorem leader_placed_alone :
    ¬ ∀ (P : Policies ℤ Unit) (x : Input ℤ Unit), ∀ g ∈ x.groups, ∀ p ∈ g.roles, p.2.policy = .AFFINED →
      Idle x p.2.vms →
        (∀ v ∈ Affinity.pending x.pool p.2.vms, Plain x v ∧
          ∀ w ∈ Affinity.pending x.pool p.2.vms, P.priority v = P.priority w) →
          PlacedTogether P x p.2.vms := by
  intro h
  obtain ⟨b, hb, hvmid, -⟩ := h plainPolicies pairInput _ List.mem_cons_self (0, ⟨.AFFINED, {1, 2}⟩)
    List.mem_cons_self rfl idle_pairInput
    (by
      intro v hv
      refine ⟨⟨rfl, rfl, rfl, ?_⟩, fun _ _ => rfl⟩
      intro vm hvm
      obtain ⟨-, hvm⟩ := Option.ite_none_right_eq_some.mp hvm
      rw [← Option.some.inj hvm]
      rfl)
    1 isLeader_pairInput ⟨1, 0, 0, false, []⟩ (by rw [schedule_pairInput]; exact List.mem_cons_self) rfl 2
    (Affinity.mem_pending.mpr ⟨Finset.mem_insert_of_mem (Finset.mem_singleton_self 2), rfl⟩) (by decide)
    fits_pairInput
  rw [schedule_pairInput] at hb
  rw [List.mem_singleton.mp hb] at hvmid
  exact absurd hvmid (by decide)

end RankScheduler
