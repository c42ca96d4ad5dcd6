/-
# The hosts that count a virtual machine

The handlers keep a virtual machine in the collections of the right hosts (`tracks_of_reach`), except that

* a live migration to another datastore of the same host takes the virtual machine out of the collection
  of that host when it ends;
* `delete_vm_db` forgets the previous host of a virtual machine that moves;
* what comes before the handler of a migration has run can leave the previous host charged: the handler does
  not find the state of the request any more.
-/
import OpenNebula.HandlerOutcomes
import OpenNebula.Transition

open Transition

namespace LifeCycle

/-- A virtual machine with the hosts that count it and its handlers that are queued. -/
structure Placed where
  vm : Vm
  hosts : Finset ℤ
  queue : List Trigger

/-- One step. -/
def Placed.step (keep : Text → Bool) (p : Placed) (s : Step) : Option Placed :=
  (s.run keep p.vm p.queue).map fun r => ⟨r.1.vm, hostsAfter p.hosts r.1.effects, r.2⟩

/-! ## The other handlers -/

section Handlers

variable {vm : Vm} {hosts : Finset ℤ} {keep : Text → Bool}

theorem unplaced_noteAction (h : vm.state.isOff = true) (hlcm : vm.lcm = .lcmInit) (a : VmAction) :
    Unplaced (noteAction vm a) := by
  unfold noteAction
  split
  · exact Unplaced.off h hlcm
  · exact Unplaced.off h hlcm

theorem good_triggerStopSuccess (h : Inv vm ∅) : Good ∅ (triggerStopSuccess vm) := by
  unfold triggerStopSuccess
  split
  · exact (unplaced_noteAction rfl rfl .stop).inv
  · exact (unplaced_noteAction rfl rfl .stop).inv
  · exact h

theorem good_triggerUndeploySuccess (h : Inv vm ∅) : Good ∅ (triggerUndeploySuccess vm) := by
  have hgood : Good ∅ ⟨noteAction { vm with state := .undeployed, lcm := .lcmInit } .undeploy,
      if vm.isRunningQuota then [.releaseRunning vm.uid vm.gid] else [], none⟩ := by
    have hhosts : hostsAfter ∅ (if vm.isRunningQuota then [.releaseRunning vm.uid vm.gid] else []) =
        ∅ := by
      split <;> rfl
    unfold Good
    dsimp only
    rw [hhosts]
    exact (unplaced_noteAction rfl rfl .undeploy).inv
  unfold triggerUndeploySuccess
  split
  · exact hgood
  · exact hgood
  · exact hgood
  · exact h

theorem good_triggerDone (h : Inv vm ∅) : Good ∅ (triggerDone vm) := by
  unfold triggerDone
  split
  · exact good_free vm
  · exact good_free vm
  · exact h

/-- A live migration to another host. -/
theorem good_triggerDeploySuccess (h : Inv vm hosts)
    (hmoved : vm.lcm = .migrate → vm.hid ≠ vm.previousHid) :
    Good hosts (triggerDeploySuccess keep vm) := by
  refine Good.report ?_ fun hosts => hostsAfter_report hosts vm true
  split
  · rename_i hlcm
    have hstate := h.active (by rw [hlcm]; decide)
    have hplace : vm.place = .both := by
      rw [place_of_active hstate, hlcm]
      rfl
    refine Good.dropping fun snapshots => ?_
    have hset : Settled { vm with lcm := .running, snapshots := snapshots } :=
      Settled.active hstate rfl
    have hinv := h.moved hplace hset rfl
    rw [if_pos (hmoved hlcm)] at hinv
    exact hinv
  case h_13 => exact h
  all_goals
    rename_i hlcm
    exact good_stay h (by rw [hlcm]; rfl) rfl rfl (hid_setAction _ _)

theorem good_afterBootFailure (h : Inv vm hosts) : Inv (afterBootFailure vm) hosts := by
  have hplace : lcmPlace vm.lcm = .current → vm.place = .current := by
    intro hcurrent
    have hstate := h.active (by rintro heq; rw [heq] at hcurrent; exact absurd hcurrent (by decide))
    exact (place_of_active hstate).trans hcurrent
  unfold afterBootFailure
  split
  · rename_i hlcm
    exact good_stay h (by rw [hlcm]; rfl) rfl rfl rfl
  · rename_i hlcm
    exact good_stay h (by rw [hlcm]; rfl) rfl rfl rfl
  · rename_i hlcm
    exact good_stay h (by rw [hlcm]; rfl) rfl rfl rfl
  · rename_i hlcm
    exact h.stay (hplace (by rw [hlcm]; rfl)) (Settled.off (Or.inl rfl) rfl) rfl
  · rename_i hlcm
    exact h.stay (hplace (by rw [hlcm]; rfl)) (Settled.off (Or.inr rfl) rfl) rfl
  · rename_i hlcm
    exact good_stay h (by rw [hlcm]; rfl) rfl rfl rfl
  · rename_i hlcm
    exact good_stay h (by rw [hlcm]; rfl) rfl rfl rfl
  · exact h

theorem good_triggerDeployFailure (h : Inv vm hosts) : Good hosts (triggerDeployFailure vm) := by
  unfold triggerDeployFailure
  split
  · rename_i hlcm
    exact good_revertMigrateAfterFailure h (by rw [hlcm]; rfl)
  · unfold Good
    dsimp only
    rw [hostsAfter_report]
    exact good_afterBootFailure h

theorem good_triggerDeploy (h : Inv vm hosts) (hplace : vm.place = .nowhere) :
    Good hosts (triggerDeploy vm) := by
  unfold triggerDeploy
  dsimp only
  split
  · rename_i hstate
    refine h.arrive hplace (Settled.active hstate ?_)
    dsimp only
    split
    · rfl
    · split <;> rfl
  · exact h

theorem good_bypassSaveMigrate (h : Leaving vm hosts) {vm' : Vm}
    (hprevious : vm'.previousHid = vm.previousHid) {lcm : LcmState} (hlcm : lcmPlace lcm = .current)
    (ra : Requester) : Good hosts (bypassSaveMigrate keep vm' lcm ra) := by
  have hinv : ∀ snapshots,
      Inv (Vm.setAction { vm' with state := .active, lcm := lcm, snapshots := snapshots } .migrate)
        (if vm'.hid ≠ vm'.previousHid then (insert vm'.hid hosts).erase vm'.previousHid
          else insert vm'.hid hosts) := by
    intro snapshots
    have hset : Settled (Vm.setAction { vm' with
        state := .active, lcm := lcm, snapshots := snapshots } .migrate) := Settled.active rfl hlcm
    have htransfer := h.transfer hset hprevious
    rw [hid_setAction, previousHid_setAction] at htransfer
    exact htransfer
  obtain ⟨cid, heq⟩ := dropSnapshots_eq keep { vm' with state := .active, lcm := lcm }
  unfold Good bypassSaveMigrate
  dsimp only
  rw [hostsAfter_append, hostsAfter_release, heq]
  by_cases hne : vm'.hid ≠ vm'.previousHid
  · simp only [if_pos hne] at hinv ⊢
    exact hinv _
  · simp only [if_neg hne] at hinv ⊢
    exact hinv _

/-- The record that the virtual machine leaves keeps its place when its action is noted. -/
theorem Leaving.noted (h : Leaving vm hosts) (a : VmAction) :
    vm.history.isSome = true ∧ (vm.setPreviousAction a).previous.isSome = true := by
  refine ⟨h.known.1, ?_⟩
  unfold Vm.setPreviousAction
  dsimp only
  rw [Option.isSome_map]
  exact h.known.2

theorem good_triggerLiveMigrate (h : Leaving vm hosts) (hstate : vm.state = .active)
    (hlcm : vm.lcm = .running) : Good hosts (triggerLiveMigrate vm) := by
  unfold triggerLiveMigrate
  split
  · have hinv : Inv (Vm.setPreviousAction { vm with lcm := .migrate } .liveMigrate)
        (insert (Vm.setPreviousAction { vm with lcm := .migrate } .liveMigrate).hid hosts) :=
      h.depart hstate rfl (previousHid_setPreviousAction _ _) (h.noted .liveMigrate)
    exact hinv
  · rename_i hnot
    exact absurd hlcm (hnot hstate)

theorem good_triggerMigrate (h : Leaving vm hosts)
    (hmoves : (vm.state = .active ∧ vm.lcm = .running) ∨ vm.bypassesSave = true) (a : VmAction)
    (ra : Requester) : Good hosts (triggerMigrate keep vm a ra) := by
  unfold triggerMigrate
  split
  · rename_i hstate _
    have hknown : (Vm.setPreviousAction (Vm.setAction { vm with lcm := .saveMigrate } a) a).history.isSome =
        true := (Option.isSome_map ..).trans h.known.1
    have hinv : Inv (Vm.setPreviousAction (Vm.setAction { vm with lcm := .saveMigrate } a) a)
        (insert (Vm.setPreviousAction (Vm.setAction { vm with lcm := .saveMigrate } a) a).hid hosts) :=
      h.depart hstate rfl (previousHid_setPreviousAction _ _) ⟨hknown, (h.noted a).2⟩
    rw [hid_setPreviousAction, hid_setAction] at hinv
    exact hinv
  · exact good_bypassSaveMigrate h rfl rfl ra
  · exact good_bypassSaveMigrate h rfl rfl ra
  · exact good_bypassSaveMigrate h (previousHid_setPreviousAction _ _) rfl ra
  · rename_i hpoweroff hsuspended hrunning hunknown
    rcases hmoves with ⟨hstate, hlcm⟩ | hbypass
    · exact absurd hlcm (hrunning hstate)
    · unfold Vm.bypassesSave at hbypass
      split at hbypass
      · rename_i hstate
        exact absurd hstate hpoweroff
      · rename_i hstate
        exact absurd hstate hsuspended
      · rename_i hstate hlcm
        exact absurd hlcm (hunknown hstate)
      · exact absurd hbypass Bool.false_ne_true

theorem good_boot (h : Inv vm hosts) {lcm : LcmState} (hlcm : lcmPlace lcm = .current)
    (hstate : vm.state = .poweroff ∨ vm.state = .suspended) :
    Inv ((Vm.cpHistory { vm with state := .active, lcm := lcm }).setAction .resume) hosts := by
  have hstates := states_cpHistory { vm with state := .active, lcm := lcm }
  refine h.stay (place_of_powered hstate) (Settled.active hstates.1 ?_)
    ((hid_setAction _ _).trans (hid_cpHistory _))
  show lcmPlace (Vm.cpHistory { vm with state := .active, lcm := lcm }).lcm = .current
  rw [hstates.2]
  exact hlcm

theorem good_triggerRestore (h : Inv vm hosts) : Good hosts (triggerRestore vm) := by
  unfold triggerRestore
  split
  · rename_i hstate
    exact good_boot h rfl (Or.inr hstate)
  · exact h

theorem good_triggerRestart (h : Inv vm hosts) : Good hosts (triggerRestart vm) := by
  unfold triggerRestart
  split
  · rename_i hlcm
    exact good_stay h (by rw [hlcm]; rfl) rfl rfl rfl
  · rename_i hstate
    exact good_boot h rfl (Or.inl hstate)
  · exact h

/-- After a clean-up no host counts the virtual machine. -/
theorem inv_cleanUpVm (keep : Text → Bool) (h : Inv vm hosts) (dispose : Bool) :
    Inv (cleanUpVm keep vm dispose).1 (hostsAfter hosts (cleanUpVm keep vm dispose).2.1) ∧
      (cleanUpVm keep vm dispose).1.state = .active ∧
      (cleanUpVm keep vm dispose).1.lcm = if dispose then .cleanupDelete else .cleanupResubmit := by
  obtain ⟨history, cid, heq⟩ := cleanUpVm_eq keep vm dispose
  rw [heq]
  refine ⟨?_, rfl, rfl⟩
  have hun : Unplaced { vm with
      state := .active
      lcm := if dispose then .cleanupDelete else .cleanupResubmit
      history := history
      snapshots := if keep vm.vmmMad then vm.snapshots else [] } :=
    Unplaced.active rfl (by cases dispose <;> rfl)
  by_cases hmoves : ¬ (vm.state = .poweroff ∨ vm.state = .suspended) ∧
      (vm.lcm = .migrate ∨ vm.lcm = .saveMigrate)
  · have hstate := h.active (by rcases hmoves.2 with hlcm | hlcm <;> rw [hlcm] <;> decide)
    have hplace : vm.place = .both := by
      rw [place_of_active hstate]
      rcases hmoves.2 with hlcm | hlcm <;> rw [hlcm] <;> rfl
    simp only [if_pos hmoves]
    exact h.leaveBoth hplace hun
  · simp only [if_neg hmoves]
    refine h.leave (fun hboth => hmoves ?_) hun
    obtain ⟨hstate, hlcm⟩ := moves_of_both hboth
    exact ⟨by rw [hstate]; decide, hlcm⟩

theorem good_triggerDelete (h : Inv vm hosts) (ra : Requester) :
    Good hosts (triggerDelete keep vm ra) := by
  have hdone : lcmPlace vm.lcm = .nowhere → vm.state = .active →
      Good hosts (Vm.queue { vm with lcm := .cleanupDelete } .done) := by
    intro hplace hstate
    have hempty := h.nowhere ((place_of_active hstate).trans hplace)
    have hun : Unplaced { vm with lcm := .cleanupDelete } := Unplaced.active hstate rfl
    rw [hempty]
    exact ⟨hun.inv, rfl⟩
  unfold triggerDelete
  split
  · exact h
  · rename_i hstate
    have hstate := not_not.mp hstate
    split
    · rename_i hlcm
      exact hdone (by rw [hlcm]; rfl) hstate
    · rename_i hlcm
      exact hdone (by rw [hlcm]; rfl) hstate
    · obtain ⟨hinv, hactive, hlcm⟩ := inv_cleanUpVm keep h true
      have hempty := hinv.nowhere ((place_of_active hactive).trans (by rw [hlcm]; rfl))
      unfold Good
      dsimp only
      rw [hostsAfter_append, hostsAfter_release]
      exact ⟨hinv, hempty⟩

theorem good_triggerDeleteRecreate (h : Inv vm hosts) :
    Good hosts (triggerDeleteRecreate keep vm) := by
  unfold triggerDeleteRecreate
  split
  · exact h
  split
  · exact h
  · exact h
  · obtain ⟨hinv, hactive, hlcm⟩ := inv_cleanUpVm keep h false
    unfold Good
    dsimp only
    rw [hostsAfter_append, hostsAfter_release]
    exact ⟨hinv.tracks, hinv.idle, hinv.moving⟩

end Handlers

/-! ## The other requests -/

section Requests

variable {vm : Vm} {hosts : Finset ℤ}

theorem previousHid_addHistory (hsome : vm.history.isSome = true) (hid cid dsId : ℤ) (vmmMad : Text) :
    (vm.addHistory hid cid dsId vmmMad).previousHid = vm.hid ∧
      (vm.addHistory hid cid dsId vmmMad).previous.isSome = true := by
  obtain ⟨r, hr⟩ := Option.isSome_iff_exists.mp hsome
  unfold Vm.addHistory Vm.previousHid Vm.hid
  rw [hr]
  exact ⟨rfl, rfl⟩

theorem good_migrate (h : Inv vm hosts) (hid cid dsId : ℤ) (vmmMad : Text) (live : Bool) (a : VmAction)
    (ra : Requester) : Good hosts (migrate vm hid cid dsId vmmMad live a ra) := by
  unfold migrate
  split
  · exact h
  · rename_i hguard
    have hsome : vm.history.isSome = true := by
      rw [Option.isSome_iff_ne_none]
      intro hnone
      unfold migrateRefused at hguard
      rw [hnone] at hguard
      exact hguard rfl
    obtain ⟨hprevious, hprevious'⟩ := previousHid_addHistory hsome hid cid dsId vmmMad
    have hleaving : vm.place = .current → Leaving (vm.addHistory hid cid dsId vmmMad) hosts := by
      intro hplace
      exact ⟨by rw [h.current hplace, hprevious], rfl, hprevious'⟩
    split
    · rename_i hstate hlcm
      have hleft := hleaving (by rw [place_of_active hstate, hlcm]; rfl)
      cases live with
      | true => exact ⟨hleft, hstate, hlcm⟩
      | false => exact ⟨hleft, Or.inl ⟨hstate, hlcm⟩⟩
    · rename_i hstate
      refine ⟨hleaving (place_of_powered (Or.inl hstate)), Or.inr ?_⟩
      unfold Vm.bypassesSave
      rw [show (Vm.queue (vm.addHistory hid cid dsId vmmMad) (.migrate a ra)).vm.state = .poweroff from hstate]
    · rename_i hstate
      refine ⟨hleaving (place_of_powered (Or.inr hstate)), Or.inr ?_⟩
      unfold Vm.bypassesSave
      rw [show (Vm.queue (vm.addHistory hid cid dsId vmmMad) (.migrate a ra)).vm.state = .suspended from hstate]
    · rename_i hstate hlcm
      refine ⟨hleaving (by rw [place_of_active hstate, hlcm]; rfl), Or.inr ?_⟩
      unfold Vm.bypassesSave
      rw [show (Vm.queue (vm.addHistory hid cid dsId vmmMad) (.migrate a ra)).vm.state = .active from hstate,
        show (Vm.queue (vm.addHistory hid cid dsId vmmMad) (.migrate a ra)).vm.lcm = .unknown from hlcm]
    · exact h

theorem good_resume (h : Inv vm hosts) : Good hosts (resume vm) := by
  unfold resume dispatchResume
  split
  · rename_i heq
    split at heq
    case h_1 | h_2 =>
      rename_i hstate
      rw [← Option.some.inj heq]
      exact good_rest h (by rw [hstate]; rfl) rfl (h.idle (by rw [hstate]; decide))
    case h_6 => exact absurd heq (by simp)
    all_goals
      rw [← Option.some.inj heq]
      exact h
  · exact h

theorem good_freePlaced (h : Inv vm hosts) (hplace : vm.place ≠ .both) : Good hosts (freePlaced vm) := by
  show Good (hosts.erase vm.hid) (freeVmResources vm)
  rw [erase_of_subset (h.subset hplace)]
  exact good_free vm

theorem good_deleteVm (h : Inv vm hosts) (ra : Requester) : Good hosts (deleteVm vm ra) := by
  unfold deleteVm
  split
  · rename_i hstate
    exact good_freePlaced h (by rw [place_of_powered (Or.inr hstate)]; decide)
  · rename_i hstate
    exact good_freePlaced h (by rw [place_of_powered (Or.inl hstate)]; decide)
  case h_10 => exact h
  case h_11 => exact h
  all_goals
    rename_i hstate
    exact good_freeOff h (by rw [hstate]; rfl)

theorem good_deleteVmDb (h : Inv vm hosts)
    (hmoving : vm.lcm = .migrate ∨ vm.lcm = .saveMigrate → vm.hid = vm.previousHid) :
    Good hosts (deleteVmDb vm) := by
  unfold deleteVmDb
  split
  · rename_i hstate
    exact good_freePlaced h (by rw [place_of_powered (Or.inr hstate)]; decide)
  · rename_i hstate
    exact good_freePlaced h (by rw [place_of_powered (Or.inl hstate)]; decide)
  · rename_i hstate
    by_cases hplace : vm.place = .both
    · have hlcm := (moves_of_both hplace).2
      show Good (hosts.erase vm.hid) (freeVmResources vm)
      have hhosts : hosts = {vm.hid} := by
        rw [h.both hplace, ← hmoving hlcm, Finset.pair_eq_singleton]
      rw [hhosts, erase_of_subset (Finset.Subset.refl _)]
      exact good_free vm
    · exact good_freePlaced h hplace
  case h_11 => exact h
  all_goals
    rename_i hstate
    exact good_freeOff h (by rw [hstate]; rfl)

theorem good_terminate (h : Inv vm hosts) (hard : Bool) (ra : Requester) :
    Good hosts (terminate vm hard ra) := by
  unfold terminate
  split
  case h_1 | h_2 | h_3 | h_4 => exact h
  case h_10 => exact h
  case h_11 =>
    split
    · exact h
    · split
      case h_3 => split <;> exact h
      all_goals exact h
  all_goals
    rename_i hstate
    exact good_freeOff h (by rw [hstate]; rfl)

end Requests

/-! ## Runs -/

/-- `delete_vm_db` is requested. -/
def Step.isDeleteVmDb : Step → Bool
  | .event .deleteVmDb => true
  | _ => false

/-- Nothing comes between such a handler and the step that queued it, a live migration that ends well was
to another host, and `delete_vm_db` does not find a virtual machine that moves between two hosts. -/
structure Allowed (p : Placed) (s : Step) : Prop where
  undisturbed : s.Undisturbed Trigger.relies p.queue
  moved : s.trigger p.queue = some .deploySuccess → p.vm.lcm = .migrate → p.vm.hid ≠ p.vm.previousHid
  placed : s.isDeleteVmDb = true → p.vm.lcm = .migrate ∨ p.vm.lcm = .saveMigrate →
    p.vm.hid = p.vm.previousHid

instance (p : Placed) (s : Step) : Decidable (Allowed p s) :=
  decidable_of_iff (s.Undisturbed Trigger.relies p.queue ∧
      (s.trigger p.queue = some .deploySuccess → p.vm.lcm = .migrate → p.vm.hid ≠ p.vm.previousHid) ∧
      (s.isDeleteVmDb = true → p.vm.lcm = .migrate ∨ p.vm.lcm = .saveMigrate →
        p.vm.hid = p.vm.previousHid))
    ⟨fun h => ⟨h.1, h.2.1, h.2.2⟩, fun h => ⟨h.undisturbed, h.moved, h.placed⟩⟩

theorem good_handle {keep : Text → Bool} {vm : Vm} {hosts : Finset ℤ} {t : Trigger}
    (h : Ready vm hosts (some t))
    (hmoved : t = .deploySuccess → vm.lcm = .migrate → vm.hid ≠ vm.previousHid) :
    Good hosts (t.handle keep vm) := by
  cases t with
  | deploySuccess => exact good_triggerDeploySuccess h (hmoved rfl)
  | deployFailure => exact good_triggerDeployFailure h
  | deploy => exact good_triggerDeploy h.1 h.2
  | restore => exact good_triggerRestore h
  | migrate a ra => exact good_triggerMigrate h.1 h.2 a ra
  | liveMigrate => exact good_triggerLiveMigrate h.1 h.2.1 h.2.2
  | restart => exact good_triggerRestart h
  | delete ra => exact good_triggerDelete h ra
  | deleteRecreate => exact good_triggerDeleteRecreate h
  | stopSuccess =>
    obtain ⟨h, rfl⟩ := h
    exact good_triggerStopSuccess h
  | undeploySuccess =>
    obtain ⟨h, rfl⟩ := h
    exact good_triggerUndeploySuccess h
  | done =>
    obtain ⟨h, rfl⟩ := h
    exact good_triggerDone h
  | _ => exact (ordinary_handle rfl).good hosts h

theorem good_request {vm : Vm} {hosts : Finset ℤ} (h : Inv vm hosts) (e : Event)
    (hplaced : e = .deleteVmDb → vm.lcm = .migrate ∨ vm.lcm = .saveMigrate → vm.hid = vm.previousHid) :
    Good hosts (request vm e) := by
  cases e with
  | deploy hid cid dsId vmmMad => exact (ordinary_deploy hid cid dsId vmmMad).good hosts h
  | migrate hid cid dsId vmmMad live a ra => exact good_migrate h hid cid dsId vmmMad live a ra
  | suspend => exact ordinary_suspend.good hosts h
  | stop => exact ordinary_stop.good hosts h
  | undeploy hard => exact (ordinary_undeploy hard).good hosts h
  | poweroff hard => exact (ordinary_poweroff hard).good hosts h
  | resume => exact good_resume h
  | hold => exact ordinary_hold.good hosts h
  | releaseHold => exact ordinary_releaseHold.good hosts h
  | terminate hard ra => exact good_terminate h hard ra
  | deleteVm ra => exact good_deleteVm h ra
  | deleteRecreate => exact ordinary_deleteRecreate.good hosts h
  | deleteVmDb => exact good_deleteVmDb h (hplaced rfl)
  | recover success => exact (ordinary_recover success).good hosts h
  | retry => exact ordinary_retry.good hosts h
  | _ => exact h

/-- What holds in a state, with the handlers that are queued. -/
structure Waiting (p : Placed) : Prop where
  inv : (∀ t ∈ p.queue, t.relies = false) → Inv p.vm p.hosts
  ready : ∀ t ∈ p.queue, t.relies = true → Ready p.vm p.hosts (some t)

/-- What a request or a handler leaves. -/
theorem Good.waiting {hosts : Finset ℤ} {o : Outcome} (h : Good hosts o) {rest : List Trigger}
    (hrest : ∀ t ∈ rest, t.relies = false) :
    Waiting ⟨o.vm, hostsAfter hosts o.effects, rest ++ o.queued.toList⟩ := by
  unfold Good at h
  constructor
  · intro hnone
    cases hq : o.queued with
    | none => rwa [hq] at h
    | some t =>
      rw [hq] at h
      have ht := hnone t (List.mem_append_right _ (Option.mem_toList.mpr hq))
      exact inv_of_ready h (migrates_of_relies ht)
  · intro t ht hrelies
    rcases List.mem_append.mp ht with ht | ht
    · rw [hrest t ht] at hrelies
      exact absurd hrelies Bool.false_ne_true
    · rw [Option.mem_toList.mp ht] at h
      exact h

/-- **One step** keeps the hosts right. -/
theorem Waiting.step {keep : Text → Bool} {p p' : Placed} {s : Step} (h : Waiting p) (hok : Allowed p s)
    (hstep : p.step keep s = some p') : Waiting p' := by
  obtain ⟨⟨o, queue⟩, hrun, rfl⟩ := Option.map_eq_some_iff.mp hstep
  obtain ⟨⟨rest, rfl, hrest⟩, ⟨e, rfl, rfl, hnone⟩ | ⟨t, ht, htrigger, rfl, hnone⟩⟩ :=
    Step.run_cases hok.undisturbed hrun
  · refine Good.waiting (good_request (h.inv hnone) e fun he => hok.placed ?_) hrest
    rw [he]
    rfl
  · refine Good.waiting (good_handle ?_ ?_) hrest
    · cases hrelies : t.relies with
      | false => exact ready_of_inv (h.inv (hnone hrelies)) hrelies
      | true => exact h.ready t ht hrelies
    · rintro rfl
      exact hok.moved htrigger

/-- A virtual machine that was never placed. -/
structure Fresh (p : Placed) : Prop where
  state : p.vm.state.isOff = true
  lcm : p.vm.lcm = .lcmInit
  hosts : p.hosts = ∅
  queue : p.queue = []

/-- **The hosts follow the virtual machine.**  In every state reached from a virtual machine that was never
placed, by requests, reports and recoveries in any order and the handlers that they queue, the hosts that
have it in their collection are the one of its last history record while it is placed, also the one of the
record before while it moves, and none when it is not placed, in particular when it is `DONE` or `PENDING`.
While a migration that was accepted waits for its handler, it is in the collection of the host that it
leaves. -/
theorem tracks_of_reach {keep : Text → Bool} {p p' : Placed} (hfresh : Fresh p)
    (hrun : Reach (Placed.step keep) Allowed p p') :
    ((∀ t ∈ p'.queue, t.migrates = false) → Tracks p'.vm p'.hosts) ∧
      ((∃ t ∈ p'.queue, t.migrates = true) → p'.hosts = {p'.vm.previousHid}) := by
  have hinv : Inv p.vm p.hosts := by
    rw [hfresh.hosts]
    exact (Unplaced.off hfresh.state hfresh.lcm).inv
  have hwait : Waiting p := by
    constructor
    · exact fun _ => hinv
    · intro t ht
      rw [hfresh.queue] at ht
      exact absurd ht List.not_mem_nil
  have hwait' := hrun.inv (P := Waiting) hwait fun _ _ _ h hok hstep => h.step hok hstep
  constructor
  · intro hnone
    by_cases hrelies : ∃ t ∈ p'.queue, t.relies = true
    · obtain ⟨t, ht, hrelies⟩ := hrelies
      exact (inv_of_ready (hwait'.ready t ht hrelies) (hnone t ht)).tracks
    · refine (hwait'.inv fun t ht => ?_).tracks
      rw [← Bool.not_eq_true]
      exact fun htrue => hrelies ⟨t, ht, htrue⟩
  · rintro ⟨t, ht, hmigrates⟩
    have hready := hwait'.ready t ht (relies_of_migrates hmigrates)
    cases t with
    | migrate | liveMigrate => exact hready.1.hosts
    | _ => exact absurd hmigrates Bool.false_ne_true

/-! ## Runs of one virtual machine -/

/-- A new virtual machine, which no host counts. -/
def newPlaced : Placed := ⟨⟨1, 100, .pending, .lcmInit, none, none, [], 0⟩, ∅, []⟩

/-- An event whose handler runs. -/
def handled (e : Event) (m : Manager) : List Step := [.event e, .handler m]

/-- The virtual machine runs at the host 1. -/
def bootRun : List Step :=
  handled (.deploy 1 0 0 []) .lcm ++ handled .prologSuccess .lcm ++ handled .deploySuccess .lcm

/-- It moves to the host 2 and is powered off there. -/
def moveRun : List Step :=
  bootRun ++ handled (.migrate 2 0 0 [] true .migrate ⟨1, 100⟩) .lcm ++ handled .deploySuccess .lcm ++
    handled (.poweroff false) .lcm ++ handled .shutdownSuccess .lcm ++ [.handler .dm]

/-- It moves to another datastore of the host 1. -/
def sameHostRun : List Step :=
  bootRun ++ handled (.migrate 1 0 5 [] true .migrate ⟨1, 100⟩) .lcm ++ handled .deploySuccess .lcm

/-- It is deleted from the database while it moves to the host 2. -/
def deletedRun : List Step :=
  bootRun ++ handled (.migrate 2 0 0 [] false .migrate ⟨1, 100⟩) .lcm ++ [.event .deleteVmDb]

/-- It is powered off, its migration to the host 2 is accepted, and it is deleted before the handler of the
migration runs. -/
def overtakenRun : List Step :=
  bootRun ++ handled (.poweroff false) .lcm ++ handled .shutdownSuccess .lcm ++
    [.handler .dm, .event (.migrate 2 0 0 [] false .migrate ⟨1, 100⟩), .event (.deleteVm ⟨1, 100⟩),
      .handler .lcm]

theorem fresh_newPlaced : Fresh newPlaced := ⟨rfl, rfl, rfl, rfl⟩

theorem values_moveRun : ((runChecked (Placed.step fun _ => false) Allowed newPlaced moveRun).map fun p =>
    (p.vm.state, p.hosts, p.queue)) = some (.poweroff, {2}, []) := by
  decide +kernel

/-- A virtual machine that was powered off after a live migration. -/
theorem tracks_moveRun : ∃ p, Reach (Placed.step fun _ => false) Allowed newPlaced p ∧
    p.vm.state = .poweroff ∧ p.hosts = {2} ∧ p.queue = [] ∧ Tracks p.vm p.hosts := by
  obtain ⟨p, hp, hvalues⟩ := Option.map_eq_some_iff.mp values_moveRun
  have hrun := reach_of_runChecked moveRun hp
  obtain ⟨hstate, hhosts, hqueue⟩ : p.vm.state = .poweroff ∧ p.hosts = {2} ∧ p.queue = [] := by
    simpa using hvalues
  refine ⟨p, hrun, hstate, hhosts, hqueue, (tracks_of_reach fresh_newPlaced hrun).1 ?_⟩
  rw [hqueue]
  exact fun t ht => absurd ht List.not_mem_nil

theorem values_sameHostRun : ((runEvents (Placed.step fun _ => false) newPlaced sameHostRun).map fun p =>
    (p.vm.state, p.vm.lcm, p.vm.hid, p.hosts, p.queue)) = some (.active, .running, 1, ∅, []) := by
  decide +kernel

theorem values_deletedRun : ((runEvents (Placed.step fun _ => false) newPlaced deletedRun).map fun p =>
    (p.vm.state, p.hosts, p.queue)) = some (.done, {1}, []) := by
  decide +kernel

theorem values_overtakenRun : ((runEvents (Placed.step fun _ => false) newPlaced overtakenRun).map fun p =>
    (p.vm.state, p.hosts, p.queue)) = some (.done, {1}, []) := by
  decide +kernel

/-- A virtual machine that is done and still counted. -/
theorem not_tracks_of_done {p : Placed} (h : (p.vm.state, p.hosts, p.queue) = (.done, {1}, [])) :
    p.vm.state = .done ∧ p.hosts = {1} ∧ p.queue = [] ∧ ¬ Tracks p.vm p.hosts := by
  obtain ⟨hstate, hhosts, hqueue⟩ : p.vm.state = .done ∧ p.hosts = {1} ∧ p.queue = [] := by simpa using h
  refine ⟨hstate, hhosts, hqueue, ?_⟩
  unfold Tracks
  rw [place_of_off (by rw [hstate]; rfl), hhosts]
  exact Finset.singleton_ne_empty 1

/-- **Hosts that are wrong.**  After a live migration to another datastore of its host a running virtual
machine is in no collection, and one that was deleted stays in the collection of its previous host, when it
was deleted from the database while it moved, or before the handler of its migration has run. -/
theorem not_tracks :
    (∃ p, runEvents (Placed.step fun _ => false) newPlaced sameHostRun = some p ∧ p.vm.state = .active ∧
      p.vm.lcm = .running ∧ p.hosts = ∅ ∧ p.queue = [] ∧ ¬ Tracks p.vm p.hosts) ∧
    (∃ p, runEvents (Placed.step fun _ => false) newPlaced deletedRun = some p ∧ p.vm.state = .done ∧
      p.hosts = {1} ∧ p.queue = [] ∧ ¬ Tracks p.vm p.hosts) ∧
    ∃ p, runEvents (Placed.step fun _ => false) newPlaced overtakenRun = some p ∧ p.vm.state = .done ∧
      p.hosts = {1} ∧ p.queue = [] ∧ ¬ Tracks p.vm p.hosts := by
  refine ⟨?_, ?_, ?_⟩
  · obtain ⟨p, hp, hvalues⟩ := Option.map_eq_some_iff.mp values_sameHostRun
    obtain ⟨hstate, hlcm, hhid, hhosts, hqueue⟩ : p.vm.state = .active ∧ p.vm.lcm = .running ∧
        p.vm.hid = 1 ∧ p.hosts = ∅ ∧ p.queue = [] := by
      simpa using hvalues
    refine ⟨p, hp, hstate, hlcm, hhosts, hqueue, ?_⟩
    unfold Tracks
    rw [place_of_active hstate, hlcm, hhosts]
    exact (Finset.singleton_ne_empty _).symm
  · obtain ⟨p, hp, hvalues⟩ := Option.map_eq_some_iff.mp values_deletedRun
    exact ⟨p, hp, not_tracks_of_done hvalues⟩
  · obtain ⟨p, hp, hvalues⟩ := Option.map_eq_some_iff.mp values_overtakenRun
    exact ⟨p, hp, not_tracks_of_done hvalues⟩

end LifeCycle
