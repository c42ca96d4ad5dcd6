/-
# The quota of running virtual machines

The usage of a user and of a group should be the sum over the virtual machines for which `is_running_quota`
is true, with the ones whose resume was accepted and waits for its handler (`usage_of_reach`).  It is not
when

* a virtual machine in the state `UNKNOWN` is resumed: its running part is charged a second time;
* a virtual machine is resumed again before the handler of the first resume has run;
* a resumed virtual machine fails to boot and is powered off or suspended again: its running part stays;
* a virtual machine that is powered off or suspended is migrated: its running part is released at the end
  and was not charged.
-/
import OpenNebula.HandlerOutcomes
import OpenNebula.Transition

open Transition

namespace LifeCycle

/-! ## Virtual machines and usage -/

/-- A virtual machine with the `CPU` and the `MEMORY` of its template, and its handlers that are queued. -/
structure Member where
  vm : Vm
  cpu : ℚ
  memory : ℚ
  queue : List Trigger

/-- The running part of a virtual machine. -/
def Member.amounts (x : Member) : RunningMetric → ℚ
  | .vms => 1
  | .cpu => x.cpu
  | .memory => x.memory

/-- The virtual machines and the usage. -/
structure Pool where
  members : List Member
  usage : RunningUsage

/-- A step of one of the virtual machines. -/
def Pool.step (keep : Text → Bool) (s : Pool) (e : ℕ × Step) : Option Pool :=
  match s.members[e.1]? with
  | none => none
  | some x =>
    (e.2.run keep x.vm x.queue).map fun r =>
      ⟨s.members.set e.1 { x with vm := r.1.vm, queue := r.2 }, s.usage + usageOf x.amounts r.1.effects⟩

/-- The sum over the virtual machines of a user or a group that have a running quota. -/
def runningSum (members : List Member) (a : Owner) (m : RunningMetric) : ℚ :=
  (members.map fun x =>
    if (a = .user x.vm.uid ∨ a = .group x.vm.gid) ∧ x.vm.isRunningQuota = true then x.amounts m
    else 0).sum

/-- **The usage of every user and group is the sum over its virtual machines.** -/
def Pool.Right (s : Pool) : Prop := ∀ a m, a.id ≠ 0 → s.usage a m = runningSum s.members a m

/-- A virtual machine that has its running part: it runs, or its resume was accepted. -/
def Member.charged (x : Member) : Bool := x.vm.isRunningQuota || x.queue.any Trigger.resumes

/-- What a virtual machine has charged. -/
def Member.charge (x : Member) : RunningUsage :=
  if x.charged then chargeTo x.vm.uid x.vm.gid x.amounts else 0

/-- The sum over the virtual machines of a user or a group that have their running part. -/
def chargedSum (members : List Member) (a : Owner) (m : RunningMetric) : ℚ :=
  (members.map fun x =>
    if (a = .user x.vm.uid ∨ a = .group x.vm.gid) ∧ x.charged = true then x.amounts m else 0).sum

/-- A resume is requested. -/
def Step.isResume : Step → Bool
  | .event .resume => true
  | _ => false

/-- A cold migration. -/
def Trigger.isMigrate : Trigger → Bool
  | .migrate _ _ => true
  | _ => false

/-- Nothing comes between a resume and its handler, no virtual machine in the state `UNKNOWN` is resumed, and
no failed boot and no migration finds one of the states that lose the count. -/
structure Counted (x : Member) (s : Step) : Prop where
  undisturbed : s.Undisturbed Trigger.resumes x.queue
  known : s.isResume = true → ¬ (x.vm.state = .active ∧ x.vm.lcm = .unknown)
  boots : s.trigger x.queue = some .deployFailure → x.vm.lcm ≠ .bootPoweroff ∧ x.vm.lcm ≠ .bootSuspended
  moves : (s.trigger x.queue).any Trigger.isMigrate = true → x.vm.state ≠ .poweroff ∧ x.vm.state ≠ .suspended

instance (x : Member) (s : Step) : Decidable (Counted x s) :=
  decidable_of_iff (s.Undisturbed Trigger.resumes x.queue ∧
      (s.isResume = true → ¬ (x.vm.state = .active ∧ x.vm.lcm = .unknown)) ∧
      (s.trigger x.queue = some .deployFailure →
        x.vm.lcm ≠ .bootPoweroff ∧ x.vm.lcm ≠ .bootSuspended) ∧
      ((s.trigger x.queue).any Trigger.isMigrate = true →
        x.vm.state ≠ .poweroff ∧ x.vm.state ≠ .suspended))
    ⟨fun h => ⟨h.1, h.2.1, h.2.2.1, h.2.2.2⟩, fun h => ⟨h.undisturbed, h.known, h.boots, h.moves⟩⟩

/-- The condition on a step. -/
def Pool.Counts (s : Pool) (e : ℕ × Step) : Prop := ∀ x ∈ s.members[e.1]?, Counted x e.2

instance (s : Pool) (e : ℕ × Step) : Decidable (s.Counts e) :=
  inferInstanceAs (Decidable (∀ x ∈ s.members[e.1]?, Counted x e.2))

namespace RunningQuota

/-! ## The other handlers -/

section Handlers

variable {vm : Vm} {keep : Text → Bool}

theorem fair_triggerStopSuccess (h : Plain vm) : Fair vm (triggerStopSuccess vm) := by
  obtain ⟨history, heq⟩ := noteAction_frame { vm with state := .stopped, lcm := .lcmInit } .stop
  unfold triggerStopSuccess
  split
  case h_3 => exact Fair.ignore h
  all_goals
    rename_i hlcm
    rw [heq]
    refine Fair.ends h (by rw [hlcm]; decide) rfl rfl rfl rfl fun amounts => ?_
    rw [usageOf_cons, usageOf_nil, add_zero]
    rfl

theorem fair_triggerUndeploySuccess (h : Plain vm) : Fair vm (triggerUndeploySuccess vm) := by
  obtain ⟨history, heq⟩ := noteAction_frame { vm with state := .undeployed, lcm := .lcmInit } .undeploy
  unfold triggerUndeploySuccess
  split
  case h_4 => exact Fair.ignore h
  all_goals
    rename_i hlcm
    rw [heq]
    have hlcm' : vm.lcm ≠ .lcmInit := by rw [hlcm]; decide
    exact Fair.ends h hlcm' rfl rfl rfl rfl fun amounts => usageOf_releaseRunning h hlcm' amounts

theorem fair_triggerDone (h : Plain vm) : Fair vm (triggerDone vm) := by
  unfold triggerDone
  split
  · exact fair_freeVmResources vm
  · exact fair_freeVmResources vm
  · exact Fair.ignore h

theorem fair_triggerDeploySuccess (h : Plain vm) : Fair vm (triggerDeploySuccess keep vm) := by
  refine Fair.append ?_ fun amounts => usageOf_report amounts vm true
  split
  · rename_i hlcm
    exact Fair.dropping fun _ => Fair.active ⟨h.idle, h.runs⟩ (by rw [hlcm]; decide) rfl rfl rfl rfl
      fun _ => add_zero 0
  case h_13 => exact Fair.ignore h
  all_goals
    rename_i hlcm
    exact Fair.active h (by rw [hlcm]; decide) rfl rfl rfl rfl fun _ => rfl

/-- A boot that fails, but for the two states of which the virtual machine goes back to where it was. -/
theorem fair_triggerDeployFailure (h : Plain vm)
    (hback : vm.lcm ≠ .bootPoweroff ∧ vm.lcm ≠ .bootSuspended) : Fair vm (triggerDeployFailure vm) := by
  unfold triggerDeployFailure afterBootFailure
  split
  · rename_i hlcm
    exact fair_revertMigrateAfterFailure h (by rw [hlcm]; decide)
  · have hreport := fun amounts => usageOf_report amounts vm false
    split
    case h_4 =>
      rename_i hlcm
      exact absurd hlcm hback.1
    case h_5 =>
      rename_i hlcm
      exact absurd hlcm hback.2
    case h_8 => exact Fair.same h rfl rfl rfl hreport
    all_goals
      rename_i hlcm
      exact Fair.active h (by rw [hlcm]; decide) rfl rfl rfl rfl hreport

theorem fair_triggerDeploy (h : Plain vm) : Fair vm (triggerDeploy vm) := by
  have hgood : ∀ lcm, vm.state = .active → Vm.stopsRunningQuota lcm = false →
      Fair vm ⟨{ vm with lcm := lcm }, [.addCapacity vm.hid], none⟩ := by
    intro lcm hstate hruns
    refine Fair.same ⟨fun hne => absurd hstate hne, hruns⟩ ?_ rfl rfl fun _ => add_zero 0
    rw [isRunningQuota_active hstate h.runs]
    exact isRunningQuota_active hstate hruns
  unfold triggerDeploy
  dsimp only
  split
  · rename_i hstate
    refine hgood _ hstate ?_
    split
    · rfl
    · split <;> rfl
  · exact Fair.ignore h

/-- The hosts that get or lose the virtual machine. -/
theorem usageOf_hosts (amounts : RunningMetric → ℚ) {e : Effect} (he : e.onUsage amounts = 0) (hid : ℤ)
    (c : Prop) [Decidable c] : usageOf amounts (e :: if c then [.delCapacity hid] else []) = 0 := by
  rw [usageOf_cons, he, zero_add]
  split
  · exact add_zero 0
  · rfl

/-- The migration of an active virtual machine that does not run. -/
theorem fair_bypassSaveMigrate {vm' : Vm} {lcm : LcmState} (ra : Requester) (h : Plain vm)
    (hstate : vm.state = .active) (huid : vm'.uid = vm.uid) (hgid : vm'.gid = vm.gid)
    (hruns : Vm.stopsRunningQuota lcm = false) : Fair vm (bypassSaveMigrate keep vm' lcm ra) := by
  obtain ⟨cid, heq⟩ := dropSnapshots_eq keep { vm' with state := .active, lcm := lcm }
  unfold bypassSaveMigrate
  dsimp only
  rw [heq]
  refine Fair.same ⟨fun hne => absurd rfl hne, hruns⟩ ?_ huid hgid fun amounts => ?_
  · rw [isRunningQuota_active hstate h.runs]
    exact isRunningQuota_active rfl hruns
  · rw [usageOf_append, usageOf_hosts amounts rfl, usageOf_release, if_neg Bool.false_ne_true, add_zero]

/-- A migration, but for the one of a virtual machine that is powered off or suspended. -/
theorem fair_triggerMigrate (h : Plain vm) (a : VmAction) (ra : Requester)
    (hoff : vm.state ≠ .poweroff ∧ vm.state ≠ .suspended) : Fair vm (triggerMigrate keep vm a ra) := by
  unfold triggerMigrate
  split
  · rename_i hlcm
    exact Fair.active h (by rw [hlcm]; decide) rfl rfl rfl rfl fun _ => add_zero 0
  · rename_i hstate
    exact absurd hstate hoff.1
  · rename_i hstate
    exact absurd hstate hoff.2
  · rename_i hstate _
    exact fair_bypassSaveMigrate ra h hstate rfl rfl rfl
  · exact Fair.ignore h

theorem fair_triggerLiveMigrate (h : Plain vm) : Fair vm (triggerLiveMigrate vm) := by
  unfold triggerLiveMigrate
  split
  · rename_i hlcm
    exact Fair.active h (by rw [hlcm]; decide) rfl rfl rfl rfl fun _ => add_zero 0
  · exact Fair.ignore h

theorem fair_triggerDelete (h : Plain vm) (ra : Requester) : Fair vm (triggerDelete keep vm ra) := by
  have hdone : vm.lcm ≠ .lcmInit → Fair vm (Vm.queue { vm with lcm := .cleanupDelete } .done) := by
    intro hlcm
    have hfirst : Fair vm ⟨{ vm with lcm := .cleanupDelete }, [], none⟩ :=
      Fair.active h hlcm rfl rfl rfl rfl fun _ => rfl
    exact hfirst.queuing rfl
  unfold triggerDelete
  split
  · exact Fair.ignore h
  · rename_i hstate
    have hstate := not_not.mp hstate
    split
    · rename_i hlcm
      exact hdone (by rw [hlcm]; decide)
    · rename_i hlcm
      exact hdone (by rw [hlcm]; decide)
    · obtain ⟨history, cid, heq⟩ := cleanUpVm_eq keep vm true
      rw [heq]
      refine Fair.queuing (t := .done) ?_ rfl
      refine Fair.same ⟨fun hne => absurd rfl hne, rfl⟩ ?_ rfl rfl fun amounts => ?_
      · rw [isRunningQuota_active hstate h.runs]
        rfl
      · rw [usageOf_append, usageOf_hosts amounts rfl, usageOf_release, if_neg (by simp [hstate]), add_zero]

theorem fair_triggerDeleteRecreate (h : Plain vm) : Fair vm (triggerDeleteRecreate keep vm) := by
  unfold triggerDeleteRecreate
  split
  · exact Fair.ignore h
  rename_i hstate
  have hstate : vm.state = .active ∨ vm.state = .poweroff ∨ vm.state = .suspended := by
    by_contra hnone
    push Not at hnone
    exact hstate hnone
  split
  · exact Fair.ignore h
  · exact Fair.queue h rfl
  · obtain ⟨history, cid, heq⟩ := cleanUpVm_eq keep vm false
    rw [heq]
    unfold deleteDiskSnapshots deleteSnapshots
    dsimp only
    rcases hstate with hstate | hoff
    · refine Fair.same ⟨fun hne => absurd rfl hne, rfl⟩ ?_ rfl rfl fun amounts => ?_
      · rw [isRunningQuota_active hstate h.runs]
        rfl
      · rw [usageOf_append, usageOf_hosts amounts rfl, usageOf_release, if_neg (by simp [hstate]), add_zero]
    · refine Fair.starts (isRunningQuota_off (hoff.imp_right Or.inl)) rfl rfl rfl rfl fun amounts => ?_
      rw [usageOf_append, usageOf_hosts amounts rfl, usageOf_release, if_pos (decide_eq_true hoff), zero_add]

end Handlers

/-! ## The other requests -/

section Requests

variable {vm : Vm}

theorem fair_migrate (h : Plain vm) (hid cid dsId : ℤ) (vmmMad : Text) (live : Bool) (a : VmAction)
    (ra : Requester) : Fair vm (migrate vm hid cid dsId vmmMad live a ra) := by
  have hrecord : Fair vm ⟨vm.addHistory hid cid dsId vmmMad, [], none⟩ :=
    Fair.same ⟨h.idle, h.runs⟩ rfl rfl rfl fun _ => rfl
  unfold migrate
  split
  · exact Fair.ignore h
  · split
    · refine hrecord.queuing ?_
      split <;> rfl
    · exact hrecord.queuing rfl
    · exact hrecord.queuing rfl
    · exact hrecord.queuing rfl
    · exact Fair.ignore h

theorem fair_freePlaced (vm : Vm) : Fair vm (freePlaced vm) := by
  have hfree := fair_freeVmResources vm
  refine ⟨hfree.plain, hfree.uid, hfree.gid, fun amounts => ?_, hfree.queued⟩
  show share amounts vm + usageOf amounts (.delCapacity vm.hid :: (freeVmResources vm).effects) =
    share amounts (freeVmResources vm).vm
  rw [usageOf_cons, show Effect.onUsage amounts (.delCapacity vm.hid) = 0 from rfl, zero_add]
  exact hfree.usage amounts

theorem fair_deleteVm (h : Plain vm) (ra : Requester) : Fair vm (deleteVm vm ra) := by
  unfold deleteVm
  split
  case h_1 | h_2 => exact fair_freePlaced vm
  case h_10 => exact Fair.queue h rfl
  case h_11 => exact Fair.ignore h
  all_goals exact fair_freeVmResources vm

theorem fair_deleteVmDb (h : Plain vm) : Fair vm (deleteVmDb vm) := by
  unfold deleteVmDb
  split
  case h_1 | h_2 | h_3 => exact fair_freePlaced vm
  case h_11 => exact Fair.ignore h
  all_goals exact fair_freeVmResources vm

theorem fair_terminate (h : Plain vm) (hard : Bool) (ra : Requester) : Fair vm (terminate vm hard ra) := by
  unfold terminate
  split
  case h_1 | h_2 | h_3 | h_4 => exact Fair.queue h rfl
  case h_10 => exact Fair.ignore h
  case h_11 =>
    split
    · exact Fair.queue h rfl
    · split
      · exact Fair.queue h rfl
      · exact Fair.queue h rfl
      · split
        · exact Fair.queue h rfl
        · exact Fair.ignore h
      · exact Fair.ignore h
  all_goals exact fair_freeVmResources vm

/-- The state in which the handler of a resume boots the virtual machine. -/
def BootsFrom (vm : Vm) : Trigger → Prop
  | .restore => vm.state = .suspended
  | .restart => vm.state = .poweroff
  | _ => True

/-- A resume is charged when it is requested. -/
structure Resumes (vm : Vm) (o : Outcome) : Prop where
  same : o.vm = vm
  queued : ∃ t, o.queued = some t ∧ t.resumes = true ∧ BootsFrom vm t
  usage : ∀ amounts, usageOf amounts o.effects = chargeTo vm.uid vm.gid amounts

/-- A resume, but for the one of a virtual machine in the state `UNKNOWN`. -/
theorem fair_resume (h : Plain vm) (hknown : ¬ (vm.state = .active ∧ vm.lcm = .unknown)) :
    Fair vm (resume vm) ∨ Resumes vm (resume vm) := by
  have hpending : vm.isRunningQuota = false → vm.state ≠ .active →
      Fair vm ⟨{ vm with state := .pending }, [.chargeRunning vm.uid vm.gid], none⟩ := fun hnot hstate =>
    Fair.charge hnot ⟨fun _ => h.idle hstate, h.runs⟩ rfl rfl rfl fun _ => add_zero _
  unfold resume dispatchResume
  split
  · rename_i o heq
    split at heq
    · rename_i hstate
      rw [← Option.some.inj heq]
      exact Or.inl (hpending (isRunningQuota_off (Or.inr (Or.inr (Or.inl hstate)))) (by rw [hstate]; decide))
    · rename_i hstate
      rw [← Option.some.inj heq]
      exact Or.inl (hpending (isRunningQuota_off (Or.inr (Or.inr (Or.inr hstate)))) (by rw [hstate]; decide))
    · rename_i hstate
      rw [← Option.some.inj heq]
      exact Or.inr ⟨rfl, ⟨.restore, rfl, rfl, hstate⟩, fun _ => add_zero _⟩
    · rename_i hstate
      rw [← Option.some.inj heq]
      exact Or.inr ⟨rfl, ⟨.restart, rfl, rfl, hstate⟩, fun _ => add_zero _⟩
    · rename_i hstate hlcm
      exact absurd ⟨hstate, hlcm⟩ hknown
    · exact absurd heq (by simp)
  · refine Or.inl (Fair.same h rfl rfl rfl fun amounts => ?_)
    rw [usageOf_cons, usageOf_cons, usageOf_nil, add_zero]
    exact add_neg_cancel _

/-- A virtual machine whose resume was charged boots. -/
structure Boots (vm : Vm) (o : Outcome) : Prop where
  plain : Plain o.vm
  uid : o.vm.uid = vm.uid
  gid : o.vm.gid = vm.gid
  runs : o.vm.isRunningQuota = true
  usage : ∀ amounts, usageOf amounts o.effects = 0
  queued : o.queued = none

theorem boots_cpHistory (vm : Vm) {lcm : LcmState} (hruns : Vm.stopsRunningQuota lcm = false) :
    Boots vm ⟨(Vm.cpHistory { vm with state := .active, lcm := lcm }).setAction .resume, [], none⟩ := by
  obtain ⟨history, previous, heq⟩ := Vm.cpHistory_frame { vm with state := .active, lcm := lcm }
  rw [heq]
  exact ⟨⟨fun hne => absurd rfl hne, hruns⟩, rfl, rfl, isRunningQuota_active rfl hruns, fun _ => rfl, rfl⟩

theorem boots_triggerRestore (hstate : vm.state = .suspended) : Boots vm (triggerRestore vm) := by
  unfold triggerRestore
  rw [if_pos hstate]
  exact boots_cpHistory vm rfl

theorem boots_triggerRestart (hstate : vm.state = .poweroff) : Boots vm (triggerRestart vm) := by
  unfold triggerRestart
  rw [hstate]
  exact boots_cpHistory vm rfl

end Requests

/-! ## All the virtual machines -/

/-- **A handler** charges and releases what it should, when it is none of a resume. -/
theorem fair_handle {keep : Text → Bool} {vm : Vm} (h : Plain vm) {t : Trigger} (ht : t.resumes = false)
    (hboots : t = .deployFailure → vm.lcm ≠ .bootPoweroff ∧ vm.lcm ≠ .bootSuspended)
    (hmoves : t.isMigrate = true → vm.state ≠ .poweroff ∧ vm.state ≠ .suspended) :
    Fair vm (t.handle keep vm) := by
  cases t with
  | deploySuccess => exact fair_triggerDeploySuccess h
  | deployFailure => exact fair_triggerDeployFailure h (hboots rfl)
  | deploy => exact fair_triggerDeploy h
  | restore => exact absurd ht.symm Bool.false_ne_true
  | migrate a ra => exact fair_triggerMigrate h a ra (hmoves rfl)
  | liveMigrate => exact fair_triggerLiveMigrate h
  | restart => exact absurd ht.symm Bool.false_ne_true
  | delete ra => exact fair_triggerDelete h ra
  | deleteRecreate => exact fair_triggerDeleteRecreate h
  | stopSuccess => exact fair_triggerStopSuccess h
  | undeploySuccess => exact fair_triggerUndeploySuccess h
  | done => exact fair_triggerDone h
  | _ => exact (ordinary_handle rfl).fair h

/-- **A request** charges and releases what it should, or is a resume that is charged before it boots. -/
theorem fair_request {vm : Vm} (h : Plain vm) (e : Event)
    (hknown : e = .resume → ¬ (vm.state = .active ∧ vm.lcm = .unknown)) :
    Fair vm (request vm e) ∨ Resumes vm (request vm e) := by
  cases e with
  | deploy hid cid dsId vmmMad => exact Or.inl ((ordinary_deploy hid cid dsId vmmMad).fair h)
  | migrate hid cid dsId vmmMad live a ra => exact Or.inl (fair_migrate h hid cid dsId vmmMad live a ra)
  | suspend => exact Or.inl (ordinary_suspend.fair h)
  | stop => exact Or.inl (ordinary_stop.fair h)
  | undeploy hard => exact Or.inl ((ordinary_undeploy hard).fair h)
  | poweroff hard => exact Or.inl ((ordinary_poweroff hard).fair h)
  | resume => exact fair_resume h (hknown rfl)
  | hold => exact Or.inl (ordinary_hold.fair h)
  | releaseHold => exact Or.inl (ordinary_releaseHold.fair h)
  | terminate hard ra => exact Or.inl (fair_terminate h hard ra)
  | deleteVm ra => exact Or.inl (fair_deleteVm h ra)
  | deleteRecreate => exact Or.inl (ordinary_deleteRecreate.fair h)
  | deleteVmDb => exact Or.inl (fair_deleteVmDb h)
  | recover success => exact Or.inl ((ordinary_recover success).fair h)
  | retry => exact Or.inl (ordinary_retry.fair h)
  | _ => exact Or.inl (Fair.queue h rfl)

theorem charge_of_none {x : Member} (h : ∀ t ∈ x.queue, t.resumes = false) :
    x.charge = share x.amounts x.vm := by
  have hany : x.queue.any Trigger.resumes = false := by
    rw [List.any_eq_false]
    exact fun t ht => by rw [h t ht]; exact Bool.false_ne_true
  unfold Member.charge Member.charged share
  rw [hany, Bool.or_false]

theorem charge_of_resume {x : Member} (h : ∃ t ∈ x.queue, t.resumes = true) :
    x.charge = chargeTo x.vm.uid x.vm.gid x.amounts := by
  have hany : x.queue.any Trigger.resumes = true := List.any_eq_true.mpr h
  unfold Member.charge Member.charged
  rw [hany, Bool.or_true, if_pos rfl]

/-- A virtual machine with its handlers: the ones of a resume find the state of the request. -/
structure Good (x : Member) : Prop where
  plain : Plain x.vm
  boots : ∀ t ∈ x.queue, t.resumes = true → BootsFrom x.vm t

/-- What a step charges and releases is the difference of what the virtual machine should have charged. -/
structure Paid (x : Member) (o : Outcome) (queue : List Trigger) : Prop where
  good : Good { x with vm := o.vm, queue := queue }
  charge : x.charge + usageOf x.amounts o.effects = Member.charge { x with vm := o.vm, queue := queue }

section Step

variable {x : Member} {o : Outcome} {rest : List Trigger}

/-- The handlers afterwards. -/
theorem resumes_append (hrest : ∀ t ∈ rest, t.resumes = false) {q : Option Trigger}
    (hq : ∀ t ∈ q, t.resumes = false) : ∀ t ∈ rest ++ q.toList, t.resumes = false := by
  intro t ht
  rcases List.mem_append.mp ht with ht | ht
  · exact hrest t ht
  · exact hq t (Option.mem_toList.mp ht)

/-- No resume waits afterwards. -/
theorem paid_of_none (hplain : Plain o.vm) {queue : List Trigger} (hnone : ∀ t ∈ queue, t.resumes = false)
    (hcharge : x.charge + usageOf x.amounts o.effects = share x.amounts o.vm) : Paid x o queue := by
  refine ⟨⟨hplain, fun t ht hresumes => ?_⟩, hcharge.trans ?_⟩
  · exact absurd ((hnone t ht).symm.trans hresumes) Bool.false_ne_true
  · exact (charge_of_none (x := { x with vm := o.vm, queue := queue }) hnone).symm

theorem Fair.step (h : Fair x.vm o) (hx : ∀ t ∈ x.queue, t.resumes = false)
    (hrest : ∀ t ∈ rest, t.resumes = false) : Paid x o (rest ++ o.queued.toList) := by
  refine paid_of_none h.plain (resumes_append hrest h.queued) ?_
  rw [charge_of_none hx]
  exact h.usage x.amounts

theorem Resumes.step (h : Resumes x.vm o) (hplain : Plain x.vm) (hx : ∀ t ∈ x.queue, t.resumes = false)
    (hrest : ∀ t ∈ rest, t.resumes = false) :
    Paid x o (rest ++ o.queued.toList) := by
  obtain ⟨t, hq, hresumes, hboots⟩ := h.queued
  have hvm : o.vm = x.vm := h.same
  have hoff : x.vm.isRunningQuota = false := by
    cases t with
    | restore => exact isRunningQuota_off (Or.inr (Or.inl hboots))
    | restart => exact isRunningQuota_off (Or.inl hboots)
    | _ => exact absurd hresumes Bool.false_ne_true
  refine ⟨⟨by rw [hvm]; exact hplain, fun t' ht' hresumes' => ?_⟩, ?_⟩
  · rcases List.mem_append.mp ht' with ht' | ht'
    · exact absurd ((hrest t' ht').symm.trans hresumes') Bool.false_ne_true
    · obtain rfl : t = t' := Option.some.inj (hq.symm.trans (Option.mem_toList.mp ht'))
      rw [hvm]
      exact hboots
  · have hafter : Member.charge { x with vm := o.vm, queue := rest ++ o.queued.toList } =
        chargeTo o.vm.uid o.vm.gid x.amounts :=
      charge_of_resume ⟨t, List.mem_append_right _ (Option.mem_toList.mpr hq), hresumes⟩
    rw [charge_of_none hx, share_of_not hoff, zero_add, h.usage, hafter, hvm]

theorem Boots.step (h : Boots x.vm o) (hx : ∃ t ∈ x.queue, t.resumes = true)
    (hrest : ∀ t ∈ rest, t.resumes = false) : Paid x o (rest ++ o.queued.toList) := by
  refine paid_of_none h.plain (resumes_append hrest ?_) ?_
  · rw [h.queued]
    exact fun _ ht => absurd ht (Option.not_mem_none _)
  · rw [charge_of_resume hx, h.usage, add_zero, share_of_running h.runs, h.uid, h.gid]

end Step

/-- **One step** of a virtual machine. -/
theorem good_step {keep : Text → Bool} {x : Member} {s : Step} (h : Good x) (hok : Counted x s)
    {o : Outcome} {queue : List Trigger} (hrun : s.run keep x.vm x.queue = some (o, queue)) :
    Paid x o queue := by
  obtain ⟨⟨rest, rfl, hrest⟩, ⟨e, rfl, rfl, hnone⟩ | ⟨t, ht, htrigger, rfl, hnone⟩⟩ :=
    Step.run_cases hok.undisturbed hrun
  · have hknown : e = .resume → ¬ (x.vm.state = .active ∧ x.vm.lcm = .unknown) := by
      rintro rfl
      exact hok.known rfl
    rcases fair_request h.plain e hknown with hfair | hresumes
    · exact hfair.step hnone hrest
    · exact hresumes.step h.plain hnone hrest
  · cases hresumes : t.resumes with
    | false =>
      have hfair : Fair x.vm (t.handle keep x.vm) := by
        refine fair_handle h.plain hresumes ?_ ?_
        · rintro rfl
          exact hok.boots htrigger
        · intro hmigrate
          refine hok.moves ?_
          rw [htrigger]
          exact hmigrate
      exact hfair.step (hnone hresumes) hrest
    | true =>
      have hboots : Boots x.vm (t.handle keep x.vm) := by
        have hfrom := h.boots t ht hresumes
        cases t with
        | restore => exact boots_triggerRestore hfrom
        | restart => exact boots_triggerRestart hfrom
        | _ => exact absurd hresumes Bool.false_ne_true
      exact hboots.step ⟨t, ht, hresumes⟩ hrest

/-- What the virtual machines have charged. -/
def charges (members : List Member) : RunningUsage := (members.map Member.charge).sum

/-- The usage of a user or a group with quotas is the sum over its virtual machines. -/
theorem charges_apply (members : List Member) {a : Owner} (ha : a.id ≠ 0) (m : RunningMetric) :
    charges members a m = chargedSum members a m := by
  unfold charges chargedSum
  induction members with
  | nil => rfl
  | cons x members ih =>
    rw [List.map_cons, List.sum_cons, List.map_cons, List.sum_cons, ← ih]
    have hx : x.charge a m = if (a = .user x.vm.uid ∨ a = .group x.vm.gid) ∧
        x.charged = true then x.amounts m else 0 := by
      unfold Member.charge chargeTo
      by_cases hrun : x.charged = true
      · rw [if_pos hrun]
        simp only [ha, hrun, ne_eq, not_false_iff, true_and, and_true]
      · rw [if_neg hrun, if_neg fun h => hrun h.2]
        rfl
    rw [← hx]
    rfl

/-- What they have charged after one of them changes. -/
theorem charges_set {members : List Member} {i : ℕ} {x x' : Member} (hi : members[i]? = some x) :
    charges (members.set i x') + x.charge = charges members + x'.charge := by
  induction members generalizing i with
  | nil => exact absurd hi (by simp)
  | cons y members ih =>
    cases i with
    | zero =>
      obtain rfl : y = x := Option.some.inj hi
      show (x'.charge + charges members) + _ = (y.charge + charges members) + _
      rw [add_right_comm, add_comm (x'.charge), add_right_comm]
    | succ i =>
      show (y.charge + charges (members.set i x')) + _ = (y.charge + charges members) + _
      rw [add_assoc, ih hi, add_assoc]

/-- The virtual machines that have their running part are those that run, when no resume waits for its
handler. -/
theorem chargedSum_of_none {members : List Member} (h : ∀ x ∈ members, ∀ t ∈ x.queue, t.resumes = false)
    (a : Owner) (m : RunningMetric) : chargedSum members a m = runningSum members a m := by
  unfold chargedSum runningSum
  refine congrArg List.sum (List.map_congr_left fun x hx => ?_)
  have hany : x.queue.any Trigger.resumes = false := by
    rw [List.any_eq_false]
    exact fun t ht => by rw [h x hx t ht]; exact Bool.false_ne_true
  unfold Member.charged
  rw [hany, Bool.or_false]

/-- The usage is the sum of what the virtual machines have charged. -/
structure Inv (s : Pool) : Prop where
  good : ∀ x ∈ s.members, Good x
  usage : ∀ a m, a.id ≠ 0 → s.usage a m = charges s.members a m

theorem Inv.step {keep : Text → Bool} {s s' : Pool} {e : ℕ × Step} (h : Inv s) (hok : s.Counts e)
    (hstep : s.step keep e = some s') : Inv s' := by
  unfold Pool.step at hstep
  split at hstep
  · exact absurd hstep (by simp)
  · rename_i x hx
    obtain ⟨⟨o, queue⟩, hrun, rfl⟩ := Option.map_eq_some_iff.mp hstep
    have hmem : x ∈ s.members := List.mem_of_getElem? hx
    obtain ⟨hgood, hcharge⟩ := good_step (h.good x hmem) (hok x hx) hrun
    refine ⟨fun y hy => ?_, fun a m ha => ?_⟩
    · rcases List.mem_or_eq_of_mem_set hy with hy | rfl
      · exact h.good y hy
      · exact hgood
    · have hset : charges (s.members.set e.1 { x with vm := o.vm, queue := queue }) + x.charge =
          charges s.members + Member.charge { x with vm := o.vm, queue := queue } := charges_set hx
      have hsetAt := congrFun (congrFun hset a) m
      have hchargeAt := congrFun (congrFun hcharge a) m
      have hold := h.usage a m ha
      simp only [Pi.add_apply] at hsetAt hchargeAt ⊢
      linarith

/-- **The running quota counts the running virtual machines.**  In every state reached from one in which the
usage is right and nothing is queued, by actions, reports and recoveries of the virtual machines in any order
and the handlers that they queue, the usage of every user and group is the sum over its virtual machines with
a running quota and those whose resume was accepted and waits for its handler; when there are none of these,
over those with a running quota.  This is so as long as nothing comes between a resume and its handler, no
virtual machine in the state `UNKNOWN` is resumed, no resumed virtual machine fails to boot, and none that is
powered off or suspended is migrated. -/
theorem usage_of_reach {keep : Text → Bool} {s s' : Pool}
    (hplain : ∀ x ∈ s.members, Plain x.vm ∧ x.queue = []) (hright : s.Right)
    (hrun : Reach (Pool.step keep) Pool.Counts s s') :
    (∀ a m, a.id ≠ 0 → s'.usage a m = chargedSum s'.members a m) ∧
      ((∀ x ∈ s'.members, ∀ t ∈ x.queue, t.resumes = false) → s'.Right) := by
  have hempty : ∀ x ∈ s.members, ∀ t ∈ x.queue, t.resumes = false := by
    intro x hx t ht
    rw [(hplain x hx).2] at ht
    exact absurd ht List.not_mem_nil
  have hinv : Inv s := by
    constructor
    · intro x hx
      refine ⟨(hplain x hx).1, fun t ht hresumes => ?_⟩
      exact absurd ((hempty x hx t ht).symm.trans hresumes) Bool.false_ne_true
    · intro a m ha
      rw [hright a m ha, charges_apply _ ha, chargedSum_of_none hempty]
  have hinv' := hrun.inv (P := Inv) hinv fun _ _ _ h hok hstep => h.step hok hstep
  have husage : ∀ a m, a.id ≠ 0 → s'.usage a m = chargedSum s'.members a m := fun a m ha =>
    (hinv'.usage a m ha).trans (charges_apply _ ha m)
  exact ⟨husage, fun hnone a m ha => (husage a m ha).trans (chargedSum_of_none hnone a m)⟩

/-! ## Runs of two virtual machines -/

/-- A new virtual machine of the user 1 and one of another user of the same group. -/
def newMembers : List Member :=
  [⟨⟨1, 100, .pending, .lcmInit, none, none, [], 0⟩, 2, 1024, []⟩,
    ⟨⟨2, 100, .pending, .lcmInit, none, none, [], 0⟩, 1, 512, []⟩]

def newPool : Pool := ⟨newMembers, charges newMembers⟩

theorem plain_newPool : ∀ x ∈ newPool.members, Plain x.vm ∧ x.queue = [] := by
  intro x hx
  rcases List.mem_cons.mp hx with rfl | hx
  · exact ⟨⟨fun _ => rfl, rfl⟩, rfl⟩
  · rcases List.mem_singleton.mp hx with rfl
    exact ⟨⟨fun _ => rfl, rfl⟩, rfl⟩

theorem right_newPool : newPool.Right := by
  intro a m ha
  refine (charges_apply newMembers ha m).trans (chargedSum_of_none (fun x hx t ht => ?_) a m)
  rw [(plain_newPool x hx).2] at ht
  exact absurd ht List.not_mem_nil

/-- An event of the first virtual machine whose handler runs. -/
def handled (e : Event) : List (ℕ × Step) := [(0, .event e), (0, .handler .lcm)]

/-- The first virtual machine runs and is powered off. -/
def bootRun : List (ℕ × Step) := handled (.deploy 1 0 0 []) ++ handled .prologSuccess ++ handled .deploySuccess

def poweroffRun : List (ℕ × Step) :=
  bootRun ++ handled (.poweroff false) ++ handled .shutdownSuccess ++ [(0, .handler .dm)]

/-- It is resumed and runs again. -/
def resumedRun : List (ℕ × Step) := poweroffRun ++ handled .resume ++ handled .deploySuccess

/-- It is found again after it was not known where it is. -/
def unknownRun : List (ℕ × Step) := bootRun ++ handled .monitorDone ++ handled .resume

/-- It is powered off, resumed, and fails to boot. -/
def failedRun : List (ℕ × Step) := poweroffRun ++ handled .resume ++ handled .deployFailure

/-- It is migrated while it is powered off. -/
def migratedRun : List (ℕ × Step) :=
  poweroffRun ++ handled (.migrate 2 0 0 [] false .migrate ⟨1, 100⟩) ++ handled .prologSuccess ++
    [(0, .handler .dm)]

/-- It is powered off and resumed twice before the handlers run. -/
def twiceRun : List (ℕ × Step) :=
  poweroffRun ++ [(0, .event .resume), (0, .event .resume), (0, .handler .lcm), (0, .handler .lcm)]

/-- The states of the virtual machines and the number of those that run. -/
def summary (s : Pool) : List (VmState × LcmState × List Trigger) × ℚ × ℚ :=
  (s.members.map fun x => (x.vm.state, x.vm.lcm, x.queue), s.usage (.user 1) .vms,
    runningSum s.members (.user 1) .vms)

/-- The state of the first virtual machine; the second one still waits for its deployment. -/
def states (state : VmState) (lcm : LcmState) : List (VmState × LcmState × List Trigger) :=
  [(state, lcm, []), (.pending, .lcmInit, [])]

theorem values_resumedRun : ((runChecked (Pool.step fun _ => false) Pool.Counts newPool resumedRun).map
    summary) = some (states .active .running, 1, 1) := by
  decide +kernel

/-- A virtual machine that is powered off and resumed. -/
theorem usage_resumedRun : ∃ s, Reach (Pool.step fun _ => false) Pool.Counts newPool s ∧
    summary s = (states .active .running, 1, 1) ∧
    ∀ a m, a.id ≠ 0 → s.usage a m = chargedSum s.members a m := by
  obtain ⟨s, hs, hvalues⟩ := Option.map_eq_some_iff.mp values_resumedRun
  have hrun := reach_of_runChecked resumedRun hs
  exact ⟨s, hrun, hvalues, (usage_of_reach plain_newPool right_newPool hrun).1⟩

theorem values_unknownRun : ((runEvents (Pool.step fun _ => false) newPool unknownRun).map
    summary) = some (states .active .bootUnknown, 2, 1) := by
  decide +kernel

theorem values_failedRun : ((runEvents (Pool.step fun _ => false) newPool failedRun).map
    summary) = some (states .poweroff .lcmInit, 1, 0) := by
  decide +kernel

theorem values_migratedRun : ((runEvents (Pool.step fun _ => false) newPool migratedRun).map
    summary) = some (states .poweroff .lcmInit, -1, 0) := by
  decide +kernel

theorem values_twiceRun : ((runEvents (Pool.step fun _ => false) newPool twiceRun).map
    summary) = some (states .active .bootPoweroff, 2, 1) := by
  decide +kernel

/-- The usage of the user 1 is not the sum. -/
theorem not_right_of_values {es : List (ℕ × Step)} {l : List (VmState × LcmState × List Trigger)} {x y : ℚ}
    (h : (runEvents (Pool.step fun _ => false) newPool es).map summary = some (l, x, y)) (hne : x ≠ y) :
    ∃ s, runEvents (Pool.step fun _ => false) newPool es = some s ∧ summary s = (l, x, y) ∧ ¬ s.Right := by
  obtain ⟨s, hs, hvalues⟩ := Option.map_eq_some_iff.mp h
  refine ⟨s, hs, hvalues, fun hright => hne ?_⟩
  have husage : s.usage (.user 1) .vms = x := congrArg (fun p => p.2.1) hvalues
  have hsum : runningSum s.members (.user 1) .vms = y := congrArg (fun p => p.2.2) hvalues
  rw [← husage, ← hsum]
  exact hright (.user 1) .vms (by decide)

/-- **A usage that is wrong.**  A virtual machine in the state `UNKNOWN` that is resumed counts twice, one
that fails to boot from `POWEROFF` counts while it is powered off, one that is migrated while it is powered
off counts less than nothing afterwards, and one that is resumed twice before the first handler runs counts
twice; no handler is queued any more. -/
theorem not_right :
    (∃ s, runEvents (Pool.step fun _ => false) newPool unknownRun = some s ∧
      summary s = (states .active .bootUnknown, 2, 1) ∧ ¬ s.Right) ∧
    (∃ s, runEvents (Pool.step fun _ => false) newPool failedRun = some s ∧
      summary s = (states .poweroff .lcmInit, 1, 0) ∧ ¬ s.Right) ∧
    (∃ s, runEvents (Pool.step fun _ => false) newPool migratedRun = some s ∧
      summary s = (states .poweroff .lcmInit, -1, 0) ∧ ¬ s.Right) ∧
    ∃ s, runEvents (Pool.step fun _ => false) newPool twiceRun = some s ∧
      summary s = (states .active .bootPoweroff, 2, 1) ∧ ¬ s.Right :=
  ⟨not_right_of_values values_unknownRun (by decide), not_right_of_values values_failedRun (by decide),
    not_right_of_values values_migratedRun (by decide), not_right_of_values values_twiceRun (by decide)⟩

end RunningQuota

end LifeCycle
