/-
# The hosts of a virtual machine

A host has the virtual machines that are charged to it in `vm_collection`.  `Tracks` says in which
collections a virtual machine should be in each of its states: in the one of the host of its last history
record while it is placed, also in the one of the previous host while it moves there, and in none when it
is not placed.  The request of a migration writes the new record, but the host is charged by its handler, so
that until then the virtual machine is in the collection of the previous host only (`Leaving`).

An outcome is `Good` when the hosts are right afterwards, and what the handler that it queues relies on
holds.
-/
import OpenNebula.LifeCycle

namespace LifeCycle

/-! ## Collections -/

/-- `Host::add_capacity` and `Host::del_capacity`: the hosts that have the virtual machine in their
collection. -/
def Effect.onHosts (hosts : Finset ℤ) : Effect → Finset ℤ
  | .addCapacity hid => insert hid hosts
  | .delCapacity hid => hosts.erase hid
  | _ => hosts

/-- The hosts after some effects. -/
def hostsAfter (hosts : Finset ℤ) (effects : List Effect) : Finset ℤ := effects.foldl Effect.onHosts hosts

/-- Where a virtual machine is counted. -/
inductive Place
  | nowhere
  /-- At the host of the last record. -/
  | current
  /-- At the host of the last record and at the one of the record before. -/
  | both
  /-- At most at the host of the last record: it is being removed from it. -/
  | ending
  deriving DecidableEq

/-- Where an active virtual machine is counted. -/
def lcmPlace : LcmState → Place
  | .migrate | .saveMigrate => .both
  | .epilog | .epilogStop | .epilogUndeploy | .epilogFailure | .epilogStopFailure
  | .epilogUndeployFailure => .ending
  | .lcmInit | .cleanupDelete | .cleanupResubmit | .hotplugSaveasUndeployed | .hotplugSaveasStopped
  | .diskResizeUndeployed => .nowhere
  | _ => .current

/-- Where a virtual machine is counted. -/
def Vm.place (vm : Vm) : Place :=
  match vm.state with
  | .poweroff | .suspended => .current
  | .active => lcmPlace vm.lcm
  | _ => .nowhere

/-- **The hosts that count the virtual machine are the right ones.** -/
def Tracks (vm : Vm) (hosts : Finset ℤ) : Prop :=
  match vm.place with
  | .nowhere => hosts = ∅
  | .current => hosts = {vm.hid}
  | .both => hosts = {vm.hid, vm.previousHid}
  | .ending => hosts ⊆ {vm.hid}

instance (vm : Vm) (hosts : Finset ℤ) : Decidable (Tracks vm hosts) := by
  unfold Tracks
  split <;> infer_instance

/-- The hosts, and what the states and the records have in common. -/
structure Inv (vm : Vm) (hosts : Finset ℤ) : Prop where
  tracks : Tracks vm hosts
  idle : vm.state ≠ .active → vm.lcm = .lcmInit
  moving : vm.place = .both → vm.history.isSome = true ∧ vm.previous.isSome = true

/-- The migration is accepted, and its handler is queued: the new record is there, the host not yet. -/
structure Leaving (vm : Vm) (hosts : Finset ℤ) : Prop where
  hosts : hosts = {vm.previousHid}
  known : vm.history.isSome = true ∧ vm.previous.isSome = true

/-- The handlers of a migration. -/
def Trigger.migrates : Trigger → Bool
  | .migrate _ _ | .liveMigrate => true
  | _ => false

/-- What the handler that is queued will find. -/
def Ready (vm : Vm) (hosts : Finset ℤ) : Option Trigger → Prop
  | some (.migrate _ _) =>
    Leaving vm hosts ∧ ((vm.state = .active ∧ vm.lcm = .running) ∨ vm.bypassesSave = true)
  | some .liveMigrate => Leaving vm hosts ∧ vm.state = .active ∧ vm.lcm = .running
  | some .deploy => Inv vm hosts ∧ vm.place = .nowhere
  | some .stopSuccess | some .undeploySuccess | some .done => Inv vm hosts ∧ hosts = ∅
  | _ => Inv vm hosts

/-- The outcome of a request or a handler is as it should be, for the handler that it queues if any. -/
def Good (hosts : Finset ℤ) (o : Outcome) : Prop := Ready o.vm (hostsAfter hosts o.effects) o.queued

section Effects

variable (hosts : Finset ℤ)

@[simp] theorem hostsAfter_nil : hostsAfter hosts [] = hosts := rfl

@[simp] theorem hostsAfter_cons (e : Effect) (l : List Effect) :
    hostsAfter hosts (e :: l) = hostsAfter (e.onHosts hosts) l := rfl

@[simp] theorem hostsAfter_append (l l' : List Effect) :
    hostsAfter hosts (l ++ l') = hostsAfter (hostsAfter hosts l) l' := List.foldl_append

@[simp] theorem hostsAfter_report (vm : Vm) (success : Bool) :
    hostsAfter hosts (vm.report success) = hosts := by
  unfold Vm.report
  split
  · rfl
  · split <;> rfl

@[simp] theorem hostsAfter_release (d : Delta) (uid gid : ℤ) :
    hostsAfter hosts (d.release uid gid) = hosts := by
  unfold Delta.release
  split <;> rfl

end Effects

section Records

variable (vm : Vm)

@[simp] theorem hid_setAction (a : VmAction) : (vm.setAction a).hid = vm.hid := by
  unfold Vm.setAction Vm.hid
  cases vm.history <;> rfl

@[simp] theorem hid_setPreviousAction (a : VmAction) : (vm.setPreviousAction a).hid = vm.hid := rfl

@[simp] theorem previousHid_setAction (a : VmAction) : (vm.setAction a).previousHid = vm.previousHid := rfl

@[simp] theorem previousHid_setPreviousAction (a : VmAction) :
    (vm.setPreviousAction a).previousHid = vm.previousHid := by
  unfold Vm.setPreviousAction Vm.previousHid
  cases vm.previous <;> rfl

@[simp] theorem hid_cpHistory : vm.cpHistory.hid = vm.hid := by
  unfold Vm.cpHistory Vm.hid
  split
  · rfl
  · rename_i r hr
    rw [hr]
    rfl

theorem hid_cpPreviousHistory (hhistory : vm.history.isSome = true) (hprevious : vm.previous.isSome = true) :
    vm.cpPreviousHistory.hid = vm.previousHid := by
  obtain ⟨r, hr⟩ := Option.isSome_iff_exists.mp hhistory
  obtain ⟨p, hp⟩ := Option.isSome_iff_exists.mp hprevious
  unfold Vm.cpPreviousHistory Vm.hid Vm.previousHid
  rw [hr, hp]
  rfl

/-- The states of a virtual machine whose records change. -/
theorem states_cpHistory : vm.cpHistory.state = vm.state ∧ vm.cpHistory.lcm = vm.lcm := by
  obtain ⟨history, previous, heq⟩ := vm.cpHistory_frame
  rw [heq]
  exact ⟨rfl, rfl⟩

theorem states_cpPreviousHistory :
    vm.cpPreviousHistory.state = vm.state ∧ vm.cpPreviousHistory.lcm = vm.lcm := by
  obtain ⟨history, previous, heq⟩ := vm.cpPreviousHistory_frame
  rw [heq]
  exact ⟨rfl, rfl⟩

end Records

/-! ## Moves -/

/-- A virtual machine that is counted at the host of its last record. -/
structure Settled (vm : Vm) : Prop where
  place : vm.place = .current
  idle : vm.state ≠ .active → vm.lcm = .lcmInit

/-- A virtual machine that is counted nowhere. -/
structure Unplaced (vm : Vm) : Prop where
  place : vm.place = .nowhere
  idle : vm.state ≠ .active → vm.lcm = .lcmInit

section Moves

variable {vm vm' : Vm} {hosts : Finset ℤ}

theorem place_of_active (h : vm.state = .active) : vm.place = lcmPlace vm.lcm := by
  unfold Vm.place
  rw [h]

/-- A virtual machine that is counted at two hosts moves between them. -/
theorem moves_of_both (h : vm.place = .both) :
    vm.state = .active ∧ (vm.lcm = .migrate ∨ vm.lcm = .saveMigrate) := by
  unfold Vm.place at h
  split at h
  · exact absurd h (by decide)
  · exact absurd h (by decide)
  · rename_i hstate
    unfold lcmPlace at h
    split at h
    · rename_i hlcm
      exact ⟨hstate, Or.inl hlcm⟩
    · rename_i hlcm
      exact ⟨hstate, Or.inr hlcm⟩
    all_goals exact absurd h (by decide)
  · exact absurd h (by decide)

theorem Settled.active (h : vm.state = .active) (hlcm : lcmPlace vm.lcm = .current) : Settled vm :=
  ⟨(place_of_active h).trans hlcm, fun hne => absurd h hne⟩

theorem Settled.off (h : vm.state = .poweroff ∨ vm.state = .suspended) (hlcm : vm.lcm = .lcmInit) :
    Settled vm := by
  refine ⟨?_, fun _ => hlcm⟩
  unfold Vm.place
  rcases h with h | h <;> rw [h]

theorem Unplaced.active (h : vm.state = .active) (hlcm : lcmPlace vm.lcm = .nowhere) : Unplaced vm :=
  ⟨(place_of_active h).trans hlcm, fun hne => absurd h hne⟩

/-- The states without a host. -/
def VmState.isOff : VmState → Bool
  | .poweroff | .suspended | .active => false
  | _ => true

theorem Unplaced.off (h : vm.state.isOff = true) (hlcm : vm.lcm = .lcmInit) : Unplaced vm := by
  refine ⟨?_, fun _ => hlcm⟩
  unfold VmState.isOff at h
  unfold Vm.place
  split at h
  · exact absurd h Bool.false_ne_true
  · exact absurd h Bool.false_ne_true
  · exact absurd h Bool.false_ne_true
  · rfl

theorem Settled.inv (h : Settled vm) : Inv vm {vm.hid} := by
  refine ⟨?_, h.idle, fun hboth => absurd (h.place.symm.trans hboth) (by decide)⟩
  unfold Tracks
  rw [h.place]

theorem Unplaced.inv (h : Unplaced vm) : Inv vm ∅ := by
  refine ⟨?_, h.idle, fun hboth => absurd (h.place.symm.trans hboth) (by decide)⟩
  unfold Tracks
  rw [h.place]

theorem Inv.active (h : Inv vm hosts) (hlcm : vm.lcm ≠ .lcmInit) : vm.state = .active := by
  by_contra hstate
  exact hlcm (h.idle hstate)

theorem Inv.current (h : Inv vm hosts) (hplace : vm.place = .current) : hosts = {vm.hid} := by
  have htracks := h.tracks
  unfold Tracks at htracks
  rw [hplace] at htracks
  exact htracks

theorem Inv.nowhere (h : Inv vm hosts) (hplace : vm.place = .nowhere) : hosts = ∅ := by
  have htracks := h.tracks
  unfold Tracks at htracks
  rw [hplace] at htracks
  exact htracks

theorem Inv.both (h : Inv vm hosts) (hplace : vm.place = .both) : hosts = {vm.hid, vm.previousHid} := by
  have htracks := h.tracks
  unfold Tracks at htracks
  rw [hplace] at htracks
  exact htracks

/-- Unless it moves, the virtual machine is counted at most at its host. -/
theorem Inv.subset (h : Inv vm hosts) (hplace : vm.place ≠ .both) : hosts ⊆ {vm.hid} := by
  have htracks := h.tracks
  unfold Tracks at htracks
  split at htracks
  · rw [htracks]
    exact Finset.empty_subset _
  · rw [htracks]
  · contradiction
  · exact htracks

/-- The host of the virtual machine stays. -/
theorem Inv.stay (h : Inv vm hosts) (hplace : vm.place = .current) (hset : Settled vm')
    (hhid : vm'.hid = vm.hid) : Inv vm' hosts := by
  rw [h.current hplace, ← hhid]
  exact hset.inv

/-- The virtual machine is counted nowhere, before and afterwards. -/
theorem Inv.rest (h : Inv vm hosts) (hplace : vm.place = .nowhere) (hun : Unplaced vm') :
    Inv vm' hosts := by
  rw [h.nowhere hplace]
  exact hun.inv

/-- A host gets the virtual machine. -/
theorem Inv.arrive (h : Inv vm hosts) (hplace : vm.place = .nowhere) (hset : Settled vm') :
    Inv vm' (insert vm'.hid hosts) := by
  rw [h.nowhere hplace]
  exact hset.inv

/-- The virtual machine starts to move. -/
theorem Leaving.depart (h : Leaving vm hosts) (hstate : vm'.state = .active)
    (hlcm : lcmPlace vm'.lcm = .both) (hprevious : vm'.previousHid = vm.previousHid)
    (hsome : vm'.history.isSome = true ∧ vm'.previous.isSome = true) :
    Inv vm' (insert vm'.hid hosts) := by
  refine ⟨?_, fun hne => absurd hstate hne, fun _ => hsome⟩
  unfold Tracks
  rw [(place_of_active hstate).trans hlcm, h.hosts, hprevious]

/-- The virtual machine has moved. -/
theorem Inv.moved (h : Inv vm hosts) (hplace : vm.place = .both) (hset : Settled vm')
    (hhid : vm'.hid = vm.hid) :
    Inv vm' (if vm.hid ≠ vm.previousHid then hosts.erase vm.previousHid else hosts) := by
  rw [h.both hplace]
  have hhosts : (if vm.hid ≠ vm.previousHid then ({vm.hid, vm.previousHid} : Finset ℤ).erase vm.previousHid
      else {vm.hid, vm.previousHid}) = {vm'.hid} := by
    rw [hhid]
    split_ifs with hne
    · rw [Finset.pair_comm, Finset.erase_insert (by simpa using Ne.symm hne)]
    · rw [← not_not.mp hne, Finset.pair_eq_singleton]
  rw [hhosts]
  exact hset.inv

/-- The virtual machine goes back. -/
theorem Inv.reverted (h : Inv vm hosts) (hplace : vm.place = .both) (hset : Settled vm')
    (hhid : vm'.hid = vm.previousHid) :
    Inv vm' (if vm.hid ≠ vm.previousHid then hosts.erase vm.hid else hosts) := by
  rw [h.both hplace]
  have hhosts : (if vm.hid ≠ vm.previousHid then ({vm.hid, vm.previousHid} : Finset ℤ).erase vm.hid
      else {vm.hid, vm.previousHid}) = {vm'.hid} := by
    rw [hhid]
    split_ifs with hne
    · rw [Finset.erase_insert (by simpa using hne)]
    · rw [not_not.mp hne, Finset.pair_eq_singleton]
  rw [hhosts]
  exact hset.inv

theorem erase_of_subset {h : ℤ} (hsub : hosts ⊆ {h}) : hosts.erase h = ∅ := by
  rw [Finset.erase_eq_empty_iff]
  exact Finset.subset_singleton_iff.mp hsub

/-- The host of the virtual machine loses it. -/
theorem Inv.leave (h : Inv vm hosts) (hplace : vm.place ≠ .both) (hun : Unplaced vm') :
    Inv vm' (hosts.erase vm.hid) := by
  rw [erase_of_subset (h.subset hplace)]
  exact hun.inv

/-- Both hosts lose the virtual machine. -/
theorem Inv.leaveBoth (h : Inv vm hosts) (hplace : vm.place = .both) (hun : Unplaced vm') :
    Inv vm' ((hosts.erase vm.hid).erase vm.previousHid) := by
  have hhosts : (hosts.erase vm.hid).erase vm.previousHid = ∅ := by
    rw [h.both hplace]
    refine erase_of_subset fun x hx => ?_
    obtain ⟨hne, hmem⟩ := Finset.mem_erase.mp hx
    exact (Finset.mem_insert.mp hmem).resolve_left hne
  rw [hhosts]
  exact hun.inv

/-- The last part of a virtual machine at its host. -/
theorem Inv.ending (h : Inv vm hosts) (hplace : vm.place ≠ .both) (hstate : vm'.state = .active)
    (hlcm : lcmPlace vm'.lcm = .ending) (hhid : vm'.hid = vm.hid) : Inv vm' hosts := by
  have hplace' := (place_of_active hstate).trans hlcm
  refine ⟨?_, fun hne => absurd hstate hne, fun hboth => absurd (hplace'.symm.trans hboth) (by decide)⟩
  unfold Tracks
  rw [hplace', hhid]
  exact h.subset hplace

/-- The virtual machine, which does not run, is given to another host. -/
theorem Leaving.transfer (h : Leaving vm hosts) (hset : Settled vm')
    (hprevious : vm'.previousHid = vm.previousHid) :
    Inv vm' (if vm'.hid ≠ vm'.previousHid then (insert vm'.hid hosts).erase vm'.previousHid
      else insert vm'.hid hosts) := by
  rw [h.hosts, hprevious]
  have hhosts : (if vm'.hid ≠ vm.previousHid then
      (insert vm'.hid ({vm.previousHid} : Finset ℤ)).erase vm.previousHid
      else insert vm'.hid {vm.previousHid}) = {vm'.hid} := by
    split_ifs with hne
    · rw [Finset.pair_comm, Finset.erase_insert (by simpa using Ne.symm hne)]
    · rw [not_not.mp hne, Finset.pair_eq_singleton]
  rw [hhosts]
  exact hset.inv

/-- The virtual machine is given back to another host. -/
theorem Inv.giveBack (h : Inv vm hosts) (hplace : vm.place = .current) (hset : Settled vm') :
    Inv vm' (insert vm'.hid (hosts.erase vm.hid)) := by
  rw [erase_of_subset (h.subset (by rw [hplace]; decide))]
  exact hset.inv

theorem place_of_powered (h : vm.state = .poweroff ∨ vm.state = .suspended) : vm.place = .current := by
  unfold Vm.place
  rcases h with h | h <;> rw [h]

theorem place_of_off (h : vm.state.isOff = true) : vm.place = .nowhere := by
  unfold VmState.isOff at h
  unfold Vm.place
  split at h
  · exact absurd h Bool.false_ne_true
  · exact absurd h Bool.false_ne_true
  · exact absurd h Bool.false_ne_true
  · rfl

end Moves

/-! ## Outcomes -/

section Outcomes

variable {vm : Vm} {hosts : Finset ℤ} {keep : Text → Bool}

theorem Good.dropping {f : Vm → Outcome}
    (h : ∀ snapshots, Good hosts (f { vm with snapshots := snapshots })) :
    Good hosts (droppingSnapshots keep vm f) := by
  obtain ⟨cid, heq⟩ := dropSnapshots_eq keep vm
  unfold Good droppingSnapshots
  dsimp only
  rw [hostsAfter_append, hostsAfter_release, heq]
  exact h _

theorem Good.report {o : Outcome} (h : Good hosts o) {l : List Effect}
    (hl : ∀ hosts, hostsAfter hosts l = hosts) : Good hosts ⟨o.vm, o.effects ++ l, o.queued⟩ := by
  unfold Good
  dsimp only
  rw [hostsAfter_append, hl]
  exact h

theorem good_startPrologMigrate (h : Inv vm hosts) (hlcm : vm.lcm = .saveMigrate) :
    Good hosts (startPrologMigrate vm) := by
  have hstate := h.active (by rw [hlcm]; decide)
  have hplace : vm.place = .both := by
    rw [place_of_active hstate, hlcm]
    rfl
  have hset : Settled { vm with lcm := .prologMigrate } := Settled.active hstate rfl
  have hmoved := h.moved hplace hset rfl
  unfold Good startPrologMigrate
  split_ifs at hmoved ⊢
  · exact hmoved
  · exact hmoved

theorem good_revertMigrateAfterFailure (h : Inv vm hosts) (hlcm : lcmPlace vm.lcm = .both) :
    Good hosts (revertMigrateAfterFailure vm) := by
  have hstate := h.active (by rintro heq; rw [heq] at hlcm; exact absurd hlcm (by decide))
  have hplace := (place_of_active hstate).trans hlcm
  obtain ⟨hhistory, hprevious⟩ := h.moving hplace
  have hstates := states_cpPreviousHistory { vm with lcm := .running }
  have hset : Settled (Vm.cpPreviousHistory { vm with lcm := .running }) :=
    Settled.active (hstates.1.trans hstate) (by rw [hstates.2]; rfl)
  have hreverted := h.reverted hplace hset (hid_cpPreviousHistory _ hhistory hprevious)
  unfold Good revertMigrateAfterFailure
  split_ifs at hreverted ⊢
  · exact hreverted
  · exact hreverted

/-- An active virtual machine that stays at its host. -/
theorem good_stay (h : Inv vm hosts) {vm' : Vm} (hplace : lcmPlace vm.lcm = .current)
    (hstate' : vm'.state = vm.state) (hplace' : lcmPlace vm'.lcm = .current) (hhid : vm'.hid = vm.hid) :
    Good hosts ⟨vm', [], none⟩ := by
  have hstate := h.active (by rintro heq; rw [heq] at hplace; exact absurd hplace (by decide))
  exact h.stay ((place_of_active hstate).trans hplace) (Settled.active (hstate'.trans hstate) hplace') hhid

/-- An active virtual machine that leaves its host. -/
theorem good_ending (h : Inv vm hosts) {vm' : Vm} (hplace : lcmPlace vm.lcm = .current ∨
    lcmPlace vm.lcm = .ending) (hstate' : vm'.state = vm.state) (hplace' : lcmPlace vm'.lcm = .ending)
    (hhid : vm'.hid = vm.hid) : Good hosts ⟨vm', [], none⟩ := by
  have hstate := h.active (by rintro heq; rw [heq] at hplace; exact absurd hplace (by decide))
  refine h.ending ?_ (hstate'.trans hstate) hplace' hhid
  rw [place_of_active hstate]
  rcases hplace with hplace | hplace <;> rw [hplace] <;> decide

theorem good_backToPrevious (h : Inv vm hosts) (hlcm : lcmPlace vm.lcm = .current) {lcm : LcmState}
    (hlcm' : lcmPlace lcm = .current) : Good hosts (backToPrevious vm lcm) := by
  have hstate := h.active (by rintro heq; rw [heq] at hlcm; exact absurd hlcm (by decide))
  have hstates := states_cpPreviousHistory { vm with lcm := lcm }
  refine h.giveBack ((place_of_active hstate).trans hlcm)
    (Settled.active (hstates.1.trans hstate) ?_)
  show lcmPlace (Vm.cpPreviousHistory { vm with lcm := lcm }).lcm = .current
  rw [hstates.2]
  exact hlcm'

/-- The host loses the virtual machine. -/
theorem good_epilog (h : Inv vm hosts) (hlcm : lcmPlace vm.lcm = .ending) {lcm : LcmState}
    (hlcm' : lcmPlace lcm = .ending) : Inv { vm with lcm := lcm } (hosts.erase vm.hid) ∧
      hosts.erase vm.hid = ∅ := by
  have hstate := h.active (by rintro heq; rw [heq] at hlcm; exact absurd hlcm (by decide))
  have hplace : Vm.place { vm with lcm := lcm } = .ending := by
    unfold Vm.place
    rw [hstate]
    exact hlcm'
  have hempty := erase_of_subset (h.subset (by rw [place_of_active hstate, hlcm]; decide))
  refine ⟨⟨?_, fun hne => absurd hstate hne, fun hboth => absurd (hplace.symm.trans hboth) (by decide)⟩,
    hempty⟩
  unfold Tracks
  rw [hplace, hempty]
  exact Finset.empty_subset _

/-- A virtual machine without a host stays without one. -/
theorem good_rest (h : Inv vm hosts) (hoff : vm.state.isOff = true) {vm' : Vm}
    (hoff' : vm'.state.isOff = true) (hlcm : vm'.lcm = .lcmInit) : Inv vm' hosts :=
  h.rest (place_of_off hoff) (Unplaced.off hoff' hlcm)

/-- A virtual machine without a host can be freed. -/
theorem good_free (vm : Vm) : Good ∅ (freeVmResources vm) := Unplaced.inv (Unplaced.off rfl rfl)

theorem good_freeOff (h : Inv vm hosts) (hoff : vm.state.isOff = true) :
    Good hosts (freeVmResources vm) := by
  rw [h.nowhere (place_of_off hoff)]
  exact good_free vm

end Outcomes

/-! ## Handlers that rely on their request -/

/-- The handlers that rely on what the step that queued them has found: those of a deployment and of a
migration, and those of a virtual machine that has left its host. -/
def Trigger.relies : Trigger → Bool
  | .deploy | .migrate _ _ | .liveMigrate | .stopSuccess | .undeploySuccess | .done => true
  | _ => false

theorem relies_of_migrates {t : Trigger} (h : t.migrates = true) : t.relies = true := by
  cases t with
  | migrate | liveMigrate => rfl
  | _ => exact absurd h Bool.false_ne_true

theorem migrates_of_relies {t : Trigger} (h : t.relies = false) : t.migrates = false := by
  rw [← Bool.not_eq_true]
  intro hmigrates
  rw [relies_of_migrates hmigrates] at h
  exact Bool.false_ne_true h.symm

theorem ready_of_inv {vm : Vm} {hosts : Finset ℤ} (h : Inv vm hosts) {t : Trigger} (ht : t.relies = false) :
    Ready vm hosts (some t) := by
  cases t with
  | deploy | migrate | liveMigrate | stopSuccess | undeploySuccess | done =>
    exact absurd ht.symm Bool.false_ne_true
  | _ => exact h

theorem inv_of_ready {vm : Vm} {hosts : Finset ℤ} {t : Trigger} (h : Ready vm hosts (some t))
    (ht : t.migrates = false) : Inv vm hosts := by
  cases t with
  | migrate | liveMigrate => exact absurd ht.symm Bool.false_ne_true
  | deploy | stopSuccess | undeploySuccess | done => exact h.1
  | _ => exact h

end LifeCycle
