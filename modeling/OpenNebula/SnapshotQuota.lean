/-
# The quota of system snapshots

The handlers that drop the system snapshots of a virtual machine collect them in a template and give their
size back to the quotas later.  `Returned` says that the size of what was dropped is taken once from the
usage of the owner and of the group of the virtual machine, and that nobody else's usage changes.

All the handlers do so for the owner of the virtual machine, but the migration of a virtual machine that
does not run and the deletion of an active one, which use the user that makes the request
(`returned_iff`).
-/
import OpenNebula.HandlerOutcomes

namespace LifeCycle

/-- The states of which `trigger_delete` cleans up. -/
def Vm.cleansUp (vm : Vm) : Bool :=
  match vm.state, vm.lcm with
  | .active, .cleanupResubmit | .active, .cleanupDelete => false
  | .active, _ => true
  | _, _ => false

/-- The user from which the snapshots are released, when it is the one that makes the request. -/
def requesterDrops (keep : Text → Bool) (vm : Vm) : Event → Option Requester
  | .migrate hid _ dsId vmmMad live _ ra =>
    if !migrateRefused vm hid dsId live && vm.bypassesSave && !keep vmmMad then some ra else none
  | .deleteVm ra => if vm.cleansUp && !keep vm.vmmMad then some ra else none
  | .terminate _ ra =>
    if vm.state = .active ∧ vm.lcm.isFailure = true ∧ keep vm.vmmMad = false then some ra else none
  | _ => none

namespace SnapshotQuota

/-! ## The other handlers -/

section Handlers

variable (keep : Text → Bool) (vm : Vm)

theorem exact_triggerStopSuccess : Exact vm (triggerStopSuccess vm) := by
  obtain ⟨history, heq⟩ := noteAction_frame { vm with state := .stopped, lcm := .lcmInit } .stop
  unfold triggerStopSuccess
  split
  case h_3 => exact Exact.ignore vm
  all_goals
    rw [heq]
    exact Exact.moves rfl rfl rfl rfl rfl (Quiet.cons rfl ⟨rfl, rfl⟩ quiet_nil)

theorem exact_triggerUndeploySuccess : Exact vm (triggerUndeploySuccess vm) := by
  obtain ⟨history, heq⟩ := noteAction_frame { vm with state := .undeployed, lcm := .lcmInit } .undeploy
  unfold triggerUndeploySuccess
  split
  case h_4 => exact Exact.ignore vm
  all_goals
    rw [heq]
    exact Exact.moves rfl rfl rfl rfl rfl (quiet_releaseRunning vm)

theorem exact_triggerDone : Exact vm (triggerDone vm) := by
  unfold triggerDone
  split
  case h_3 => exact Exact.ignore vm
  all_goals
    rename_i hstate _
    exact exact_freeVmResources (by rw [hstate]; decide)

theorem exact_triggerDeploySuccess : Exact vm (triggerDeploySuccess keep vm) := by
  refine Exact.append ?_ (quiet_report vm true)
  split
  · exact Exact.dropping fun _ => Exact.same rfl rfl rfl rfl id (Quiet.cons rfl trivial quiet_nil)
  case h_13 => exact Exact.ignore vm
  all_goals exact exact_lcm vm .running _ _

theorem exact_triggerDeployFailure : Exact vm (triggerDeployFailure vm) := by
  unfold triggerDeployFailure afterBootFailure
  split
  · exact exact_revertMigrateAfterFailure vm
  · split
    case h_4 | h_5 => exact Exact.moves rfl rfl rfl rfl rfl (quiet_report vm false)
    all_goals exact Exact.same rfl rfl rfl rfl id (quiet_report vm false)

theorem exact_triggerDeploy : Exact vm (triggerDeploy vm) := by
  unfold triggerDeploy
  dsimp only
  split
  · exact Exact.same rfl rfl rfl rfl id (Quiet.cons rfl trivial quiet_nil)
  · exact Exact.ignore vm

/-- The virtual machine boots. -/
theorem exact_boot (lcm : LcmState) : Exact vm
    ⟨(Vm.cpHistory { vm with state := .active, lcm := lcm }).setAction .resume, [], none⟩ := by
  obtain ⟨history, previous, heq⟩ := Vm.cpHistory_frame { vm with state := .active, lcm := lcm }
  rw [heq]
  exact Exact.moves rfl rfl rfl rfl rfl quiet_nil

theorem exact_triggerRestore : Exact vm (triggerRestore vm) := by
  unfold triggerRestore
  split
  · exact exact_boot vm .bootSuspended
  · exact Exact.ignore vm

theorem exact_triggerRestart : Exact vm (triggerRestart vm) := by
  unfold triggerRestart
  split
  · exact exact_lcm vm .bootUnknown _ _
  · exact exact_boot vm .bootPoweroff
  · exact Exact.ignore vm

theorem exact_triggerLiveMigrate : Exact vm (triggerLiveMigrate vm) := by
  unfold triggerLiveMigrate
  split
  · exact Exact.same rfl rfl rfl rfl id (Quiet.cons rfl trivial quiet_nil)
  · exact Exact.ignore vm

/-- What a clean-up collects. -/
theorem cleanUpVm_collects (dispose : Bool) :
    ∃ history snapshots effects d, cleanUpVm keep vm dispose = ({ vm with
        state := .active
        lcm := if dispose then .cleanupDelete else .cleanupResubmit
        history := history
        snapshots := snapshots }, effects, d) ∧
      (∀ uid gid, Quiet uid gid effects) ∧
      d.size = (if keep vm.vmmMad then 0 else snapshotsSize vm.snapshots) ∧
      snapshotsSize snapshots = (if keep vm.vmmMad then snapshotsSize vm.snapshots else 0) ∧
      (vm.state = .active → d.running = false) := by
  obtain ⟨history, cid, heq⟩ := cleanUpVm_eq keep vm dispose
  refine ⟨history, _, _, _, heq, fun uid gid => ?_, ?_, snapshotsSize_ite _ _, fun hactive => ?_⟩
  · exact Quiet.cons rfl trivial (quiet_ite rfl trivial)
  · cases keep vm.vmmMad
    · exact add_zero _
    · rfl
  · simp [hactive]

theorem exact_triggerDeleteRecreate : Exact vm (triggerDeleteRecreate keep vm) := by
  unfold triggerDeleteRecreate
  split
  · exact Exact.ignore vm
  split
  · exact Exact.ignore vm
  · exact Exact.queue vm rfl
  · obtain ⟨history, snapshots, effects, d, heq, hquiet, hd, hsnapshots, -⟩ :=
      cleanUpVm_collects keep vm false
    rw [heq]
    unfold deleteDiskSnapshots deleteSnapshots
    dsimp only
    refine Exact.collects (hquiet vm.uid vm.gid) ?_ rfl rfl rfl
    have hsize : d.size + (snapshotsSize snapshots + vm.diskSnapshots) = vm.heldSize := by
      rw [hd, hsnapshots]
      unfold Vm.heldSize
      split <;> ring
    unfold Delta.size at hsize ⊢
    dsimp only
    rw [snapshotsSize_append, ← hsize]
    show _ = _ - (0 + 0)
    ring

/-- **The handlers that use the owner** give back what they drop to it. -/
theorem exact_handle {t : Trigger} (ht : t.forRequester = false) : Exact vm (t.handle keep vm) := by
  cases t with
  | deploySuccess => exact exact_triggerDeploySuccess keep vm
  | deployFailure => exact exact_triggerDeployFailure vm
  | deploy => exact exact_triggerDeploy vm
  | restore => exact exact_triggerRestore vm
  | migrate a ra => exact absurd ht.symm Bool.false_ne_true
  | liveMigrate => exact exact_triggerLiveMigrate vm
  | restart => exact exact_triggerRestart vm
  | delete ra => exact absurd ht.symm Bool.false_ne_true
  | deleteRecreate => exact exact_triggerDeleteRecreate keep vm
  | stopSuccess => exact exact_triggerStopSuccess vm
  | undeploySuccess => exact exact_triggerUndeploySuccess vm
  | done => exact exact_triggerDone vm
  | _ => exact (ordinary_handle rfl).own

end Handlers

/-! ## Requests of the owner -/

section Owner

variable {keep : Text → Bool} {vm : Vm}

theorem Exact.advance {o : Outcome} (h : Exact vm o) : Exact vm (o.advance keep) := by
  unfold Outcome.advance
  cases hq : o.queued with
  | none => exact h
  | some t =>
    obtain ⟨ht, hdone⟩ := h.queued t hq
    exact h.andThen hdone (exact_handle keep o.vm ht)

/-- A request of the owner, with its handlers. -/
theorem Exact.settle {o : Outcome} (h : Exact vm o) : Exact vm (o.settle keep) := h.advance.advance.advance

theorem advance_of_none {o : Outcome} (h : o.queued = none) : o.advance keep = o := by
  unfold Outcome.advance
  rw [h]

variable (vm)

theorem exact_resume : Exact vm (resume vm) := by
  have hcharge : Quiet vm.uid vm.gid [.chargeRunning vm.uid vm.gid] := Quiet.cons rfl ⟨rfl, rfl⟩ quiet_nil
  have hqueue : ∀ t : Trigger, t.forRequester = false →
      Exact vm ⟨vm, [.chargeRunning vm.uid vm.gid], some t⟩ := fun t ht =>
    (Exact.same rfl rfl rfl rfl id hcharge).queuing ht Iff.rfl
  unfold resume dispatchResume
  split
  · rename_i o heq
    split at heq
    · rw [← Option.some.inj heq]
      exact Exact.moves rfl rfl rfl rfl rfl hcharge
    · rw [← Option.some.inj heq]
      exact Exact.moves rfl rfl rfl rfl rfl hcharge
    · rw [← Option.some.inj heq]
      exact hqueue .restore rfl
    · rw [← Option.some.inj heq]
      exact hqueue .restart rfl
    · rw [← Option.some.inj heq]
      exact hqueue .restart rfl
    · exact absurd heq (by simp)
  · exact Exact.same rfl rfl rfl rfl id (Quiet.cons rfl ⟨rfl, rfl⟩ (Quiet.cons rfl ⟨rfl, rfl⟩ quiet_nil))

theorem exact_freePlaced (hstate : vm.state ≠ .done) : Exact vm (freePlaced vm) := by
  have hleave : Exact vm ⟨vm, [.delCapacity vm.hid], none⟩ :=
    Exact.same rfl rfl rfl rfl id (Quiet.cons rfl trivial quiet_nil)
  exact hleave.andThen Iff.rfl (exact_freeVmResources hstate)

theorem exact_deleteVmDb : Exact vm (deleteVmDb vm) := by
  unfold deleteVmDb
  split
  case h_11 => exact Exact.ignore vm
  case h_1 | h_2 | h_3 =>
    rename_i hstate
    exact exact_freePlaced vm (by rw [hstate]; decide)
  all_goals
    rename_i hstate
    exact exact_freeVmResources (by rw [hstate]; decide)

end Owner

/-! ## Handlers that use the requester -/

/-- The handler gives back what it drops, but takes a part of it from the user that makes the request. -/
structure Split (vm : Vm) (ra : Requester) (n : ℤ) (o : Outcome) : Prop where
  refunds : ∀ a, refunds a o.effects = (if a.isOf vm.uid vm.gid then droppedSize vm o - n else 0) +
    (if a.isOf ra.uid ra.gid then n else 0)
  running : ∀ a : Owner, ¬ a.isOf vm.uid vm.gid → ∀ amounts m, usageOf amounts o.effects a m = 0

section Requests

variable {keep : Text → Bool} {vm : Vm} {ra : Requester} {n : ℤ} {o : Outcome}

/-- **What is dropped goes back to the owner** only if there is nothing to give back or the owner makes the
request. -/
theorem Split.returned (h : Split vm ra n o) :
    Returned vm o ↔ n = 0 ∨ (ra.uid = vm.uid ∧ ra.gid = vm.gid) := by
  constructor
  · intro hreturned
    by_contra hcon
    obtain ⟨hn, hother⟩ := not_or.mp hcon
    -- a user or a group that is of one of the two, but not of the other
    obtain ⟨a, ha, hdiffers⟩ : ∃ a : Owner, a.id ≠ 0 ∧
        ((a.isOf ra.uid ra.gid ∧ ¬ a.isOf vm.uid vm.gid) ∨
          (¬ a.isOf ra.uid ra.gid ∧ a.isOf vm.uid vm.gid)) := by
      by_cases huid : ra.uid = vm.uid
      · have hgid : ra.gid ≠ vm.gid := fun hgid => hother ⟨huid, hgid⟩
        by_cases hzero : ra.gid = 0
        · refine ⟨.group vm.gid, fun h0 => hgid (hzero.trans h0.symm), Or.inr ⟨?_, Or.inr rfl⟩⟩
          simp [Owner.isOf, hgid.symm]
        · refine ⟨.group ra.gid, hzero, Or.inl ⟨Or.inr rfl, ?_⟩⟩
          simp [Owner.isOf, hgid]
      · by_cases hzero : ra.uid = 0
        · refine ⟨.user vm.uid, fun h0 => huid (hzero.trans h0.symm), Or.inr ⟨?_, Or.inl rfl⟩⟩
          simp [Owner.isOf, Ne.symm huid]
        · refine ⟨.user ra.uid, hzero, Or.inl ⟨Or.inl rfl, ?_⟩⟩
          simp [Owner.isOf, huid]
    have hrefunds := (hreturned a ha).1
    rw [h.refunds a] at hrefunds
    rcases hdiffers with ⟨hra, hvm⟩ | ⟨hra, hvm⟩
    · rw [if_neg hvm, if_pos hra, if_neg hvm] at hrefunds
      exact hn (by omega)
    · rw [if_pos hvm, if_neg hra, if_pos hvm] at hrefunds
      exact hn (by omega)
  · intro hcase a _
    refine ⟨?_, h.running a⟩
    rw [h.refunds a]
    rcases hcase with rfl | ⟨huid, hgid⟩
    · rw [sub_zero, ite_self, add_zero]
    · rw [huid, hgid]
      split
      · ring
      · exact add_zero 0

theorem usageOf_release_off {d : Delta} (hd : d.running = false) (uid gid : ℤ)
    (amounts : RunningMetric → ℚ) : usageOf amounts (d.release uid gid) = 0 := by
  rw [RunningQuota.usageOf_release, if_neg (by rw [hd]; decide)]

theorem refunds_release (d : Delta) (uid gid : ℤ) (a : Owner) :
    refunds a (d.release uid gid) = if a.isOf uid gid then d.size else 0 := by
  rw [refunds_of_own (own_release d uid gid), sum_release]

theorem Quiet.refunds {uid gid : ℤ} {l : List Effect} (h : Quiet uid gid l) (a : Owner) :
    LifeCycle.refunds a l = 0 := by
  rw [refunds_of_own fun x hx => (h x hx).2, h.sum, ite_self]

/-- The deletion of an active virtual machine. -/
theorem split_triggerDelete (hclean : vm.cleansUp = true) (ra : Requester) :
    Split vm ra (if keep vm.vmmMad then 0 else snapshotsSize vm.snapshots)
      ((triggerDelete keep vm ra).advance keep) := by
  obtain ⟨hstate, hresubmit, hdelete⟩ :
      vm.state = .active ∧ vm.lcm ≠ .cleanupResubmit ∧ vm.lcm ≠ .cleanupDelete := by
    unfold Vm.cleansUp at hclean
    split at hclean
    · exact absurd hclean (by decide)
    · exact absurd hclean (by decide)
    · rename_i hstate hresubmit hdelete
      exact ⟨hstate, hresubmit, hdelete⟩
    · exact absurd hclean (by decide)
  obtain ⟨history, snapshots, effects, d, heq, hquiet, hd, hsnapshots, hrunning⟩ :=
    cleanUpVm_collects keep vm true
  have hout : (triggerDelete keep vm ra).advance keep = ⟨{ vm with
      state := .done, lcm := .lcmInit, history := history, snapshots := snapshots },
      (effects ++ d.release ra.uid ra.gid) ++
        [.releaseAll vm.uid vm.gid true snapshots vm.diskSnapshots], none⟩ := by
    unfold triggerDelete
    rw [if_neg (not_not.mpr hstate)]
    split
    · contradiction
    · contradiction
    · rw [heq]
      rfl
  rw [hout]
  constructor
  · intro a
    have hrest : refunds a [.releaseAll vm.uid vm.gid true snapshots vm.diskSnapshots] =
        if a.isOf vm.uid vm.gid then snapshotsSize snapshots + vm.diskSnapshots else 0 := add_zero _
    rw [droppedSize_of_done rfl (by rw [hstate]; decide), refunds_append, refunds_append,
      (hquiet 0 0).refunds, refunds_release, hd, zero_add, add_comm, hrest, hsnapshots]
    unfold Vm.heldSize
    congr 2
    split
    · rw [sub_zero]
    · ring
  · intro a ha amounts m
    dsimp only
    rw [RunningQuota.usageOf_append, RunningQuota.usageOf_append, usageOf_release_off (hrunning hstate),
      add_zero, Pi.add_apply, Pi.add_apply, usageOf_of_own (fun x hx => (hquiet vm.uid vm.gid x hx).2) ha,
      zero_add]
    exact usageOf_of_own (by simp [Own]) ha amounts m

/-- The deletion of an active virtual machine, with its handlers. -/
theorem returned_settle_delete (ra : Requester) : Returned vm ((vm.queue (.delete ra)).settle keep) ↔
    (vm.cleansUp = true → keep vm.vmmMad = false →
      snapshotsSize vm.snapshots = 0 ∨ (ra.uid = vm.uid ∧ ra.gid = vm.gid)) := by
  have hsettle : (vm.queue (.delete ra)).settle keep =
      ((triggerDelete keep vm ra).advance keep).advance keep := rfl
  rw [hsettle]
  by_cases hclean : vm.cleansUp = true
  · have hsplit : Split vm ra _ ((triggerDelete keep vm ra).advance keep) := split_triggerDelete hclean ra
    have hnone : ((triggerDelete keep vm ra).advance keep).queued = none := by
      rw [Option.eq_none_iff_forall_ne_some]
      intro t ht
      refine absurd (depth_advance (fun t' ht' => ?_) t ht) (Nat.not_lt_zero _)
      exact depth_queued keep vm (.delete ra) t' ht'
    rw [advance_of_none hnone, hsplit.returned]
    cases hkeep : keep vm.vmmMad
    · simp [hclean]
    · simp
  · refine iff_of_true (Exact.advance (Exact.advance ?_)).returned fun h => absurd h hclean
    unfold triggerDelete
    split
    · exact Exact.ignore vm
    · rename_i hstate
      have hdone : Exact vm (Vm.queue { vm with lcm := .cleanupDelete } .done) :=
        (exact_lcm vm .cleanupDelete vm.history vm.previous).queuing rfl Iff.rfl
      split
      · exact hdone
      · exact hdone
      · rename_i hresubmit hdelete
        refine absurd ?_ hclean
        unfold Vm.cleansUp
        rw [not_not.mp hstate]
        split
        · contradiction
        · contradiction
        · rfl
        · contradiction

/-- The migration of a virtual machine that does not run. -/
theorem split_bypassSaveMigrate (vm' : Vm) (lcm : LcmState) (ra : Requester)
    (hsnapshots : vm'.snapshots = vm.snapshots) (hdisks : vm'.diskSnapshots = vm.diskSnapshots) :
    Split vm ra (if keep vm'.vmmMad then 0 else snapshotsSize vm.snapshots)
      (bypassSaveMigrate keep vm' lcm ra) := by
  have hhosts : Quiet vm.uid vm.gid (.addCapacity vm'.hid ::
      if vm'.hid ≠ vm'.previousHid then [.delCapacity vm'.previousHid] else []) :=
    Quiet.cons rfl trivial (quiet_ite rfl trivial)
  obtain ⟨cid, heq⟩ := dropSnapshots_eq keep { vm' with state := .active, lcm := lcm }
  have hmad : Vm.vmmMad { vm' with state := .active, lcm := lcm } = vm'.vmmMad := rfl
  unfold bypassSaveMigrate
  rw [heq, hmad, hsnapshots]
  dsimp only
  constructor
  · intro a
    rw [droppedSize_of_left rfl, refunds_append, hhosts.refunds, refunds_release]
    unfold Vm.heldSize Delta.size Vm.setAction
    dsimp only
    rw [hdisks, zero_add, snapshotsSize_ite]
    cases keep vm'.vmmMad
    · simp
    · simp [snapshotsSize]
  · intro a ha amounts m
    rw [RunningQuota.usageOf_append, usageOf_release_off rfl, add_zero]
    exact usageOf_of_own (fun x hx => (hhosts x hx).2) ha amounts m

/-- A migration that was accepted, with its handler. -/
theorem settle_migrate (vm' : Vm) (a : VmAction) (ra : Requester)
    (hnone : (triggerMigrate keep vm' a ra).queued = none) :
    (vm'.queue (.migrate a ra)).settle keep = triggerMigrate keep vm' a ra := by
  have hsettle : (vm'.queue (.migrate a ra)).settle keep =
      ((triggerMigrate keep vm' a ra).advance keep).advance keep := rfl
  rw [hsettle, advance_of_none hnone, advance_of_none hnone]

theorem queued_triggerMigrate (vm' : Vm) (a : VmAction) (ra : Requester) :
    (triggerMigrate keep vm' a ra).queued = none := by
  unfold triggerMigrate
  split <;> rfl

theorem split_triggerMigrate (vm' : Vm) (a : VmAction) (ra : Requester) (hbypass : vm'.bypassesSave = true)
    (hsnapshots : vm'.snapshots = vm.snapshots) (hdisks : vm'.diskSnapshots = vm.diskSnapshots) :
    Split vm ra (if keep vm'.vmmMad then 0 else snapshotsSize vm.snapshots) (triggerMigrate keep vm' a ra) := by
  have hsplit : ∀ lcm, Split vm ra (if keep vm'.vmmMad then 0 else snapshotsSize vm.snapshots)
      (bypassSaveMigrate keep vm' lcm ra) := fun lcm =>
    split_bypassSaveMigrate vm' lcm ra hsnapshots hdisks
  have hsplit' : Split vm ra (if keep vm'.vmmMad then 0 else snapshotsSize vm.snapshots)
      (bypassSaveMigrate keep (vm'.setPreviousAction .migrate) .prologMigrateUnknown ra) :=
    split_bypassSaveMigrate (vm'.setPreviousAction .migrate) _ ra hsnapshots hdisks
  generalize (if keep vm'.vmmMad then 0 else snapshotsSize vm.snapshots) = n at hsplit hsplit' ⊢
  unfold Vm.bypassesSave at hbypass
  unfold triggerMigrate
  split
  · rename_i hstate hlcm
    rw [hstate, hlcm] at hbypass
    exact absurd hbypass Bool.false_ne_true
  · exact hsplit _
  · exact hsplit _
  · exact hsplit'
  · rename_i hpoweroff hsuspended _ hunknown
    split at hbypass
    · rename_i hstate
      exact absurd hstate hpoweroff
    · rename_i hstate
      exact absurd hstate hsuspended
    · rename_i hstate hlcm
      exact absurd hlcm (hunknown hstate)
    · exact absurd hbypass Bool.false_ne_true

theorem returned_migrate (hid cid dsId : ℤ) (vmmMad : Text) (live : Bool) (a : VmAction) (ra : Requester) :
    Returned vm ((migrate vm hid cid dsId vmmMad live a ra).settle keep) ↔
      (migrateRefused vm hid dsId live = false → vm.bypassesSave = true → keep vmmMad = false →
        snapshotsSize vm.snapshots = 0 ∨ (ra.uid = vm.uid ∧ ra.gid = vm.gid)) := by
  have hexact : ∀ o, Exact vm o → vm.bypassesSave = false →
      (Returned vm o ↔ (migrateRefused vm hid dsId live = false → vm.bypassesSave = true →
        keep vmmMad = false → snapshotsSize vm.snapshots = 0 ∨ (ra.uid = vm.uid ∧ ra.gid = vm.gid))) := by
    intro o h hbypass
    refine iff_of_true h.returned fun _ htrue => ?_
    rw [hbypass] at htrue
    exact absurd htrue Bool.false_ne_true
  have hmoves : migrateRefused vm hid dsId live = false → vm.bypassesSave = true →
      (Returned vm (((vm.addHistory hid cid dsId vmmMad).queue (.migrate a ra)).settle keep) ↔
        (migrateRefused vm hid dsId live = false → vm.bypassesSave = true →
          keep vmmMad = false → snapshotsSize vm.snapshots = 0 ∨ (ra.uid = vm.uid ∧ ra.gid = vm.gid))) := by
    intro hrefused hbypass
    have hsplit : Split vm ra (if keep vmmMad then 0 else snapshotsSize vm.snapshots)
        (triggerMigrate keep (vm.addHistory hid cid dsId vmmMad) a ra) :=
      split_triggerMigrate (vm.addHistory hid cid dsId vmmMad) a ra hbypass rfl rfl
    rw [settle_migrate _ a ra (queued_triggerMigrate _ a ra), hsplit.returned]
    cases hkeep : keep vmmMad
    · simp [hrefused, hbypass]
    · simp
  unfold migrate
  by_cases hrefused : migrateRefused vm hid dsId live = true
  · rw [if_pos hrefused]
    refine iff_of_true (Exact.settle (Exact.ignore vm)).returned fun hfalse => ?_
    rw [hrefused] at hfalse
    exact absurd hfalse (by decide)
  · rw [if_neg hrefused]
    have hrefused := Bool.eq_false_iff.mpr hrefused
    have hrecord : Exact vm ⟨vm.addHistory hid cid dsId vmmMad, [], none⟩ :=
      Exact.same rfl rfl rfl rfl id quiet_nil
    split
    · rename_i hstate hlcm
      have hbypass : vm.bypassesSave = false := by
        unfold Vm.bypassesSave
        rw [hstate, hlcm]
      split
      · exact hexact _ (Exact.settle (hrecord.queuing rfl Iff.rfl)) hbypass
      · rw [settle_migrate _ a ra (queued_triggerMigrate _ a ra)]
        refine hexact _ ?_ hbypass
        unfold triggerMigrate
        rw [show (vm.addHistory hid cid dsId vmmMad).state = .active from hstate,
          show (vm.addHistory hid cid dsId vmmMad).lcm = .running from hlcm]
        exact Exact.moves rfl rfl rfl rfl rfl (Quiet.cons rfl trivial quiet_nil)
    · rename_i hstate
      refine hmoves hrefused ?_
      unfold Vm.bypassesSave
      rw [hstate]
    · rename_i hstate
      refine hmoves hrefused ?_
      unfold Vm.bypassesSave
      rw [hstate]
    · rename_i hstate hlcm
      refine hmoves hrefused ?_
      unfold Vm.bypassesSave
      rw [hstate, hlcm]
    · rename_i hpoweroff hsuspended hunknown
      refine hexact _ (Exact.settle (Exact.ignore vm)) ?_
      unfold Vm.bypassesSave
      split
      · contradiction
      · contradiction
      · rename_i hstate hlcm
        exact absurd hlcm (hunknown hstate)
      · rfl

theorem cleansUp_of_not_active (hstate : vm.state ≠ .active) : vm.cleansUp = false := by
  unfold Vm.cleansUp
  split
  · contradiction
  · contradiction
  · contradiction
  · rfl

theorem returned_deleteVm (ra : Requester) : Returned vm ((deleteVm vm ra).settle keep) ↔
    (vm.cleansUp = true → keep vm.vmmMad = false →
      snapshotsSize vm.snapshots = 0 ∨ (ra.uid = vm.uid ∧ ra.gid = vm.gid)) := by
  by_cases hstate : vm.state = .active
  · have heq : deleteVm vm ra = vm.queue (.delete ra) := by
      unfold deleteVm
      rw [hstate]
    rw [heq]
    exact returned_settle_delete ra
  · refine iff_of_true (Exact.settle ?_).returned fun hclean => ?_
    · unfold deleteVm
      split
      case h_1 | h_2 =>
        rename_i hoff
        exact exact_freePlaced vm (by rw [hoff]; decide)
      case h_10 => contradiction
      case h_11 => exact Exact.ignore vm
      all_goals
        rename_i hoff
        exact exact_freeVmResources (by rw [hoff]; decide)
    · rw [cleansUp_of_not_active hstate] at hclean
      exact absurd hclean Bool.false_ne_true

theorem cleansUp_of_isFailure (hstate : vm.state = .active) (hlcm : vm.lcm.isFailure = true) :
    vm.cleansUp = true := by
  unfold Vm.cleansUp
  rw [hstate]
  split
  · rename_i heq
    rw [heq] at hlcm
    exact absurd hlcm (by decide)
  · rename_i heq
    rw [heq] at hlcm
    exact absurd hlcm (by decide)
  · rfl
  · contradiction

theorem returned_terminate (hard : Bool) (ra : Requester) :
    Returned vm ((terminate vm hard ra).settle keep) ↔
      (vm.state = .active → vm.lcm.isFailure = true → keep vm.vmmMad = false →
        snapshotsSize vm.snapshots = 0 ∨ (ra.uid = vm.uid ∧ ra.gid = vm.gid)) := by
  by_cases hfailure : vm.state = .active ∧ vm.lcm.isFailure = true
  · obtain ⟨hstate, hlcm⟩ := hfailure
    have heq : terminate vm hard ra = vm.queue (.delete ra) := by
      unfold terminate
      rw [hstate]
      exact if_pos hlcm
    rw [heq, returned_settle_delete ra]
    simp only [cleansUp_of_isFailure hstate hlcm, hstate, hlcm, forall_const]
  · refine iff_of_true (Exact.settle ?_).returned fun hstate hlcm => absurd ⟨hstate, hlcm⟩ hfailure
    unfold terminate
    split
    case h_1 | h_2 | h_3 | h_4 => exact Exact.queue vm rfl
    case h_10 => exact Exact.ignore vm
    case h_11 =>
      rename_i hstate
      rw [if_neg fun hlcm => hfailure ⟨hstate, hlcm⟩]
      split
      · exact Exact.queue vm rfl
      · exact Exact.queue vm rfl
      · split
        · exact Exact.queue vm rfl
        · exact Exact.ignore vm
      · exact Exact.ignore vm
    all_goals
      rename_i hoff
      exact exact_freeVmResources (by rw [hoff]; decide)

end Requests

/-- **Snapshots go back to the owner.**  A handler takes the size of what it drops once from the owner and
the group of the virtual machine, and changes no other usage, if and only if the snapshots are not dropped
for the user that makes the request, or their size is nothing, or the request is made by the owner with the
group of the virtual machine. -/
theorem returned_iff (keep : Text → Bool) (vm : Vm) (e : Event) :
    Returned vm (react keep vm e) ↔ ∀ ra ∈ requesterDrops keep vm e,
      snapshotsSize vm.snapshots = 0 ∨ (ra.uid = vm.uid ∧ ra.gid = vm.gid) := by
  have hexact : requesterDrops keep vm e = none → Exact vm (request vm e) →
      (Returned vm (react keep vm e) ↔ ∀ ra ∈ requesterDrops keep vm e,
        snapshotsSize vm.snapshots = 0 ∨ (ra.uid = vm.uid ∧ ra.gid = vm.gid)) := by
    intro hnone h
    refine iff_of_true h.settle.returned fun ra hra => ?_
    rw [hnone] at hra
    exact absurd hra (by simp)
  cases e with
  | migrate hid cid dsId vmmMad live a ra =>
    refine (returned_migrate hid cid dsId vmmMad live a ra).trans ?_
    simp only [requesterDrops, Option.mem_def, Option.ite_none_right_eq_some, Bool.and_eq_true,
      Bool.not_eq_true', Option.some.injEq]
    constructor
    · rintro h ra' ⟨⟨⟨hrefused, hbypass⟩, hkeep⟩, rfl⟩
      exact h hrefused hbypass hkeep
    · exact fun h hrefused hbypass hkeep => h ra ⟨⟨⟨hrefused, hbypass⟩, hkeep⟩, rfl⟩
  | terminate hard ra =>
    refine (returned_terminate hard ra).trans ?_
    simp only [requesterDrops, Option.mem_def, Option.ite_none_right_eq_some, Option.some.injEq]
    constructor
    · rintro h ra' ⟨⟨hstate, hlcm, hkeep⟩, rfl⟩
      exact h hstate hlcm hkeep
    · exact fun h hstate hlcm hkeep => h ra ⟨⟨hstate, hlcm, hkeep⟩, rfl⟩
  | deleteVm ra =>
    refine (returned_deleteVm ra).trans ?_
    simp only [requesterDrops, Option.mem_def, Option.ite_none_right_eq_some, Bool.and_eq_true,
      Bool.not_eq_true', Option.some.injEq]
    constructor
    · rintro h ra' ⟨⟨hclean, hkeep⟩, rfl⟩
      exact h hclean hkeep
    · exact fun h hclean hkeep => h ra ⟨⟨hclean, hkeep⟩, rfl⟩
  | deploy hid cid dsId vmmMad => exact hexact rfl (ordinary_deploy hid cid dsId vmmMad).own
  | suspend => exact hexact rfl ordinary_suspend.own
  | stop => exact hexact rfl ordinary_stop.own
  | undeploy hard => exact hexact rfl (ordinary_undeploy hard).own
  | poweroff hard => exact hexact rfl (ordinary_poweroff hard).own
  | resume => exact hexact rfl (exact_resume vm)
  | hold => exact hexact rfl ordinary_hold.own
  | releaseHold => exact hexact rfl ordinary_releaseHold.own
  | deleteRecreate => exact hexact rfl ordinary_deleteRecreate.own
  | deleteVmDb => exact hexact rfl (exact_deleteVmDb vm)
  | recover success => exact hexact rfl (ordinary_recover success).own
  | retry => exact hexact rfl ordinary_retry.own
  | _ => exact hexact rfl (Exact.queue vm rfl)

/-- A virtual machine of the user 1 that is powered off and has a snapshot of 500 MB. -/
def snapshotVm : Vm :=
  ⟨1, 100, .poweroff, .lcmInit, some ⟨1, 0, 0, [], .poweroff, -2, -1⟩, none, [some 500], 0⟩

/-- **Snapshots that are released from somebody else.**  When the user 2 of the group 101 migrates it, its
size is taken from this user and this group and not from the user 1 and the group 100, and so it is when the
user 2 deletes it while it runs. -/
theorem not_returned :
    ¬ Returned snapshotVm
      (react (fun _ => false) snapshotVm (.migrate 2 0 0 [] false .migrate ⟨2, 101⟩)) ∧
    ¬ Returned { snapshotVm with state := .active, lcm := .running }
      (react (fun _ => false) { snapshotVm with state := .active, lcm := .running } (.deleteVm ⟨2, 101⟩)) := by
  constructor
  · intro h
    exact absurd (h (.user 1) (by decide)).1 (by decide)
  · intro h
    exact absurd (h (.user 1) (by decide)).1 (by decide)

end SnapshotQuota

end LifeCycle
