/-
# The life-cycle and the dispatch manager (`src/lcm`, `src/dm`)

The life-cycle manager takes a virtual machine through its states: an action of a user or of the scheduler
starts an operation, the drivers report how its parts end, and the handler of a report looks at the state
and starts the next part.  The dispatch manager has the states that the users see.  On the way the handlers
add the virtual machine to hosts and take it away, charge and release quotas, drop system snapshots and
tell the plan manager how its actions end.

A request is checked at once, but its handler is only put into the queue of a manager, as are the reports
of the drivers: `lcm->trigger_...` and `dm->trigger_...` are the triggers of `include/Listener.h`, and the
thread of each manager runs the handlers of its queue one after the other.  So a handler may find another
state than the request did.  Requests and handlers are functions of the virtual machine, with what they do
to other objects as a list of effects and the handler that they queue, if any; `Step` is what happens to a
virtual machine with its queue, and `react` is a request with its handlers when nothing comes in between.

Conventions of the embedding:

* The times of the history records, the ports, the deploy identifier, the scheduled actions and the calls
  of the drivers are left out.
* The checks of a request that read other objects (authorization, capacity, datastores, quotas) or the times
  of the records are passed when its event happens.
* Quotas of clusters are left out, as well as those of datastores: the effects are about the quotas that
  count all the clusters.
* The states of hot plugging, disk snapshots, disk resizes and backups are there, but not the actions that
  lead to them.
-/
import OpenNebula.TextList

namespace LifeCycle

/-! ## States -/

/-- `VirtualMachine::VmState`. -/
inductive VmState
  | init | pending | hold | active | stopped | suspended | done | poweroff | undeployed | cloning
  | cloningFailure
  deriving DecidableEq

/-- `VirtualMachine::LcmState`. -/
inductive LcmState
  | lcmInit | prolog | boot | running | migrate | saveStop | saveSuspend | saveMigrate | prologMigrate
  | prologResume | epilogStop | epilog | shutdown | cleanupResubmit | unknown | hotplug
  | shutdownPoweroff | bootUnknown | bootPoweroff | bootSuspended | bootStopped | cleanupDelete
  | hotplugSnapshot | hotplugNic | hotplugSaveas | hotplugSaveasPoweroff | hotplugSaveasSuspended
  | shutdownUndeploy | epilogUndeploy | prologUndeploy | bootUndeploy | hotplugPrologPoweroff
  | hotplugEpilogPoweroff | bootMigrate | bootFailure | bootMigrateFailure | prologMigrateFailure
  | prologFailure | epilogFailure | epilogStopFailure | epilogUndeployFailure | prologMigratePoweroff
  | prologMigratePoweroffFailure | prologMigrateSuspend | prologMigrateSuspendFailure
  | bootUndeployFailure | bootStoppedFailure | prologResumeFailure | prologUndeployFailure
  | diskSnapshotPoweroff | diskSnapshotRevertPoweroff | diskSnapshotDeletePoweroff
  | diskSnapshotSuspended | diskSnapshotDeleteSuspended | diskSnapshot | diskSnapshotDelete
  | prologMigrateUnknown | prologMigrateUnknownFailure | diskResize | diskResizePoweroff
  | diskResizeUndeployed | hotplugNicPoweroff | hotplugResize | hotplugSaveasUndeployed
  | hotplugSaveasStopped | backup | backupPoweroff | restore
  deriving DecidableEq

/-- `VMActions::Action`, as far as the handlers write or read it. -/
inductive VmAction
  | none | migrate | poffMigrate | poffHardMigrate | liveMigrate | terminate | terminateHard | undeploy
  | undeployHard | poweroff | poweroffHard | stop | suspend | resume | delete | deleteRecreate | monitor
  deriving DecidableEq

/-- A history record. -/
structure Record where
  hid : ℤ
  cid : ℤ
  dsId : ℤ
  vmmMad : Text
  action : VmAction
  planId : ℤ
  actionId : ℤ
  deriving DecidableEq

/-- A virtual machine: its owner, its states, the last two history records, the sizes of its system
snapshots and the size of the snapshots of its disks in the system datastore. -/
structure Vm where
  uid : ℤ
  gid : ℤ
  state : VmState
  lcm : LcmState
  history : Option Record
  previous : Option Record
  snapshots : List (Option ℤ)
  diskSnapshots : ℤ
  deriving DecidableEq

/-- Who makes a request. -/
structure Requester where
  uid : ℤ
  gid : ℤ
  deriving DecidableEq

/-- A template that collects what is released later; `running` is the part of a running virtual machine
with the opposite sign. -/
structure Delta where
  clusterId : Option ℤ
  snapshots : List (Option ℤ)
  disks : ℤ
  running : Bool
  deriving DecidableEq

/-- What a handler does to hosts, to the quotas of an owner and a group, and to the plan manager. -/
inductive Effect
  | addCapacity (hid : ℤ)
  | delCapacity (hid : ℤ)
  /-- `quota_authorization`, `vm_check` or `vm_add` of the running part, and its rollback or `vm_del`. -/
  | chargeRunning (uid gid : ℤ)
  | releaseRunning (uid gid : ℤ)
  /-- `vm_del` of all that the virtual machine uses. -/
  | releaseAll (uid gid : ℤ) (running : Bool) (snapshots : List (Option ℤ)) (disks : ℤ)
  | quotaDel (uid gid : ℤ) (delta : Delta)
  | report (planId actionId : ℤ) (success : Bool)
  deriving DecidableEq

/-- The managers; each has a queue and a thread. -/
inductive Manager
  | lcm | dm
  deriving DecidableEq

/-- The handlers that are queued, in the order of `LifeCycleManager.h` and `DispatchManager.h`. -/
inductive Trigger
  | saveSuccess
  | saveFailure
  | deploySuccess
  | deployFailure
  | shutdownSuccess
  | shutdownFailure
  | monitorSuspend
  | monitorDone
  | monitorPoweroff
  | monitorPoweron
  | prologSuccess
  | prologFailure
  | epilogSuccess
  | epilogFailure
  | cleanupCallback
  | deploy
  | suspend
  | restore
  | stop
  | migrate (a : VmAction) (ra : Requester)
  | liveMigrate
  | shutdown (hard : Bool)
  | undeploy (hard : Bool)
  | poweroff (hard : Bool)
  | restart
  | delete (ra : Requester)
  | deleteRecreate
  | suspendSuccess
  | stopSuccess
  | undeploySuccess
  | poweroffSuccess
  | done
  | resubmit
  deriving DecidableEq

/-- The manager that runs a handler. -/
def Trigger.manager : Trigger → Manager
  | .suspendSuccess | .stopSuccess | .undeploySuccess | .poweroffSuccess | .done | .resubmit => .dm
  | _ => .lcm

/-- What a request or a handler does, and the handler that it queues. -/
structure Outcome where
  vm : Vm
  effects : List Effect
  queued : Option Trigger

/-- A function that calls another one. -/
def Outcome.andThen (o : Outcome) (f : Vm → Outcome) : Outcome :=
  ⟨(f o.vm).vm, o.effects ++ (f o.vm).effects, (f o.vm).queued⟩

namespace Vm

/-- Nothing happens: the state is not one that is expected. -/
def ignore (vm : Vm) : Outcome := ⟨vm, [], none⟩

/-- A handler is queued, and nothing else happens. -/
def queue (vm : Vm) (t : Trigger) : Outcome := ⟨vm, [], some t⟩

/-- `get_hid`, `get_previous_hid`. -/
def hid (vm : Vm) : ℤ := (vm.history.map Record.hid).getD (-1)

def previousHid (vm : Vm) : ℤ := (vm.previous.map Record.hid).getD (-1)

/-- `get_action`, `get_previous_action`. -/
def action (vm : Vm) : VmAction := (vm.history.map Record.action).getD .none

def previousAction (vm : Vm) : VmAction := (vm.previous.map Record.action).getD .none

/-- The driver of the last record. -/
def vmmMad (vm : Vm) : Text := (vm.history.map Record.vmmMad).getD []

/-- `set_action` and `clear_action`. -/
def setAction (vm : Vm) (a : VmAction) : Vm :=
  { vm with history := vm.history.map fun r => { r with action := a } }

def setPreviousAction (vm : Vm) (a : VmAction) : Vm :=
  { vm with previous := vm.previous.map fun r => { r with action := a } }

/-- `add_history`: a new record names no plan. -/
def addHistory (vm : Vm) (hid cid dsId : ℤ) (vmmMad : Text) : Vm :=
  { vm with
    previous := match vm.history with
      | none => vm.previous
      | some r => some r
    history := some ⟨hid, cid, dsId, vmmMad, .none, -2, -1⟩ }

/-- `cp_history`. -/
def cpHistory (vm : Vm) : Vm :=
  match vm.history with
  | none => vm
  | some r => { vm with previous := some r, history := some { r with action := .none } }

/-- `cp_previous_history`. -/
def cpPreviousHistory (vm : Vm) : Vm :=
  match vm.previous, vm.history with
  | some p, some r => { vm with previous := some r, history := some { p with action := .none } }
  | _, _ => vm

/-- Only the records change. -/
theorem cpHistory_frame (vm : Vm) :
    ∃ history previous, vm.cpHistory = { vm with history := history, previous := previous } := by
  unfold cpHistory
  split
  · exact ⟨vm.history, vm.previous, rfl⟩
  · rename_i r _
    exact ⟨some { r with action := .none }, some r, rfl⟩

theorem cpPreviousHistory_frame (vm : Vm) :
    ∃ history previous, vm.cpPreviousHistory = { vm with history := history, previous := previous } := by
  unfold cpPreviousHistory
  split
  · rename_i p r _ _
    exact ⟨some { p with action := .none }, some r, rfl⟩
  · exact ⟨vm.history, vm.previous, rfl⟩

/-- The states of an active virtual machine without a running quota. -/
def stopsRunningQuota : LcmState → Bool
  | .hotplugSaveasPoweroff | .hotplugSaveasSuspended | .diskSnapshotPoweroff
  | .diskSnapshotRevertPoweroff | .diskSnapshotDeletePoweroff | .diskSnapshotSuspended
  | .diskSnapshotDeleteSuspended | .diskResizePoweroff | .diskResizeUndeployed | .hotplugNicPoweroff
  | .hotplugSaveasUndeployed | .hotplugSaveasStopped | .hotplugPrologPoweroff
  | .hotplugEpilogPoweroff => true
  | _ => false

/-- `VirtualMachine::is_running_quota`. -/
def isRunningQuota (vm : Vm) : Bool :=
  match vm.state with
  | .pending | .cloning | .cloningFailure | .hold => true
  | .active => !stopsRunningQuota vm.lcm
  | _ => false

/-- The report to the plan manager, when the last record names a plan. -/
def report (vm : Vm) (success : Bool) : List Effect :=
  match vm.history with
  | none => []
  | some r => if -1 ≤ r.planId then [.report r.planId r.actionId success] else []

end Vm

namespace Delta

/-- An empty template. -/
def empty : Delta := ⟨none, [], 0, false⟩

/-- `Quotas::quota_del` of a template that is not empty. -/
def release (d : Delta) (uid gid : ℤ) : List Effect :=
  if d = empty then [] else [.quotaDel uid gid d]

end Delta

/-- `VirtualMachine::delete_snapshots`. -/
def deleteSnapshots (vm : Vm) (d : Delta) : Vm × Delta :=
  ({ vm with snapshots := [] },
    { d with
      snapshots := d.snapshots ++ vm.snapshots
      clusterId := match vm.history with
        | none => d.clusterId
        | some r => some r.cid })

/-- `VirtualMachine::delete_non_persistent_disk_snapshots`, for the system datastore. -/
def deleteDiskSnapshots (vm : Vm) (d : Delta) : Vm × Delta :=
  ({ vm with diskSnapshots := 0 },
    { d with
      disks := d.disks + vm.diskSnapshots
      clusterId := match vm.history with
        | none => d.clusterId
        | some r => some r.cid })

/-- `start_prolog_migrate`. -/
def startPrologMigrate (vm : Vm) : Outcome :=
  ⟨{ vm with lcm := .prologMigrate },
    if vm.hid ≠ vm.previousHid then [.delCapacity vm.previousHid] else [], none⟩

/-- `revert_migrate_after_failure`. -/
def revertMigrateAfterFailure (vm : Vm) : Outcome :=
  ⟨Vm.cpPreviousHistory { vm with lcm := .running },
    if vm.hid ≠ vm.previousHid then [.delCapacity vm.hid] else [], none⟩

/-! ## The states of the dispatch manager -/

/-- `DispatchManager::trigger_suspend_success`. -/
def triggerSuspendSuccess (vm : Vm) : Outcome :=
  match vm.state, vm.lcm with
  | .active, .saveSuspend | .active, .prologMigrateSuspend | .active, .prologMigrateSuspendFailure
  | .active, .diskSnapshotSuspended | .active, .diskSnapshotDeleteSuspended =>
    ⟨{ vm with state := .suspended, lcm := .lcmInit },
      .releaseRunning vm.uid vm.gid :: vm.report true, none⟩
  | _, _ => vm.ignore

/-- An action of the dispatch manager that was not noted yet. -/
def noteAction (vm : Vm) (a : VmAction) : Vm := if vm.action = .none then vm.setAction a else vm

theorem noteAction_frame (vm : Vm) (a : VmAction) :
    ∃ history, noteAction vm a = { vm with history := history } := by
  unfold noteAction
  split
  · exact ⟨_, rfl⟩
  · exact ⟨vm.history, rfl⟩

/-- `DispatchManager::trigger_stop_success`. -/
def triggerStopSuccess (vm : Vm) : Outcome :=
  match vm.state, vm.lcm with
  | .active, .epilogStop | .active, .prologResume =>
    ⟨noteAction { vm with state := .stopped, lcm := .lcmInit } .stop, [.releaseRunning vm.uid vm.gid],
      none⟩
  | _, _ => vm.ignore

/-- `DispatchManager::trigger_undeploy_success`. -/
def triggerUndeploySuccess (vm : Vm) : Outcome :=
  match vm.state, vm.lcm with
  | .active, .epilogUndeploy | .active, .diskResizeUndeployed | .active, .prologUndeploy =>
    ⟨noteAction { vm with state := .undeployed, lcm := .lcmInit } .undeploy,
      if vm.isRunningQuota then [.releaseRunning vm.uid vm.gid] else [], none⟩
  | _, _ => vm.ignore

/-- `DispatchManager::trigger_poweroff_success`. -/
def triggerPoweroffSuccess (vm : Vm) : Outcome :=
  match vm.state, vm.lcm with
  | .active, .shutdownPoweroff | .active, .hotplugPrologPoweroff | .active, .hotplugEpilogPoweroff
  | .active, .prologMigratePoweroff | .active, .diskSnapshotPoweroff
  | .active, .diskSnapshotRevertPoweroff | .active, .diskSnapshotDeletePoweroff
  | .active, .diskResizePoweroff | .active, .hotplugNicPoweroff
  | .active, .prologMigratePoweroffFailure =>
    ⟨{ vm with state := .poweroff, lcm := .lcmInit },
      (if vm.isRunningQuota then [.releaseRunning vm.uid vm.gid] else []) ++ vm.report true, none⟩
  | _, _ => vm.ignore

/-- `DispatchManager::free_vm_resources`. -/
def freeVmResources (vm : Vm) : Outcome :=
  ⟨{ vm with state := .done, lcm := .lcmInit },
    [.releaseAll vm.uid vm.gid vm.isRunningQuota vm.snapshots vm.diskSnapshots], none⟩

/-- `DispatchManager::trigger_done`. -/
def triggerDone (vm : Vm) : Outcome :=
  match vm.state, vm.lcm with
  | .active, .epilog | .active, .cleanupDelete => freeVmResources vm
  | _, _ => vm.ignore

/-- `DispatchManager::trigger_resubmit`. -/
def triggerResubmit (vm : Vm) : Outcome :=
  if vm.lcm = .cleanupResubmit then ⟨{ vm with state := .pending, lcm := .lcmInit }, [], none⟩
  else vm.ignore

/-! ## The reports of the drivers -/

section Handlers

-- `is_keep_snapshots` of a driver.
variable (keep : Text → Bool)

/-- The snapshots are dropped, unless the driver keeps them. -/
def dropSnapshots (vm : Vm) (d : Delta) : Vm × Delta :=
  if keep vm.vmmMad then (vm, d) else deleteSnapshots vm d

/-- What is left and what is collected. -/
theorem dropSnapshots_eq (vm : Vm) : ∃ cid, dropSnapshots keep vm .empty =
    ({ vm with snapshots := if keep vm.vmmMad then vm.snapshots else [] },
      ⟨cid, if keep vm.vmmMad then [] else vm.snapshots, 0, false⟩) := by
  unfold dropSnapshots
  cases keep vm.vmmMad
  · exact ⟨_, rfl⟩
  · exact ⟨_, rfl⟩

/-- A handler for the virtual machine without its snapshots, which are released from its owner. -/
def droppingSnapshots (vm : Vm) (f : Vm → Outcome) : Outcome :=
  let (vm', d) := dropSnapshots keep vm .empty
  ⟨(f vm').vm, (f vm').effects ++ d.release vm.uid vm.gid, (f vm').queued⟩

/-- `LifeCycleManager::trigger_save_success`. -/
def triggerSaveSuccess (vm : Vm) : Outcome :=
  match vm.lcm with
  | .saveMigrate => droppingSnapshots keep vm startPrologMigrate
  | .saveSuspend => droppingSnapshots keep vm fun vm => vm.queue .suspendSuccess
  | .saveStop => droppingSnapshots keep vm fun vm => ⟨{ vm with lcm := .epilogStop }, [], none⟩
  | _ => vm.ignore

/-- `LifeCycleManager::trigger_save_failure`. -/
def triggerSaveFailure (vm : Vm) : Outcome :=
  match vm.lcm with
  | .saveMigrate => revertMigrateAfterFailure vm
  | .saveSuspend | .saveStop => ⟨Vm.setAction { vm with lcm := .running } .none, [], none⟩
  | _ => vm.ignore

/-- `LifeCycleManager::trigger_deploy_success`; the report is sent in every state. -/
def triggerDeploySuccess (vm : Vm) : Outcome :=
  let o : Outcome := match vm.lcm with
    | .migrate =>
      droppingSnapshots keep vm fun vm =>
        ⟨{ vm with lcm := .running }, [.delCapacity vm.previousHid], none⟩
    | .boot | .bootPoweroff | .bootUnknown | .bootSuspended | .bootStopped | .bootUndeploy
    | .bootMigrate | .bootMigrateFailure | .bootStoppedFailure | .bootUndeployFailure
    | .bootFailure => ⟨Vm.setAction { vm with lcm := .running } .none, [], none⟩
    | _ => vm.ignore
  ⟨o.vm, o.effects ++ vm.report true, o.queued⟩

/-- The state after a boot that fails. -/
def afterBootFailure (vm : Vm) : Vm :=
  match vm.lcm with
  | .boot => { vm with lcm := .bootFailure }
  | .bootMigrate => { vm with lcm := .bootMigrateFailure }
  | .bootUnknown => { vm with lcm := .unknown }
  | .bootPoweroff => { vm with state := .poweroff, lcm := .lcmInit }
  | .bootSuspended => { vm with state := .suspended, lcm := .lcmInit }
  | .bootStopped => { vm with lcm := .bootStoppedFailure }
  | .bootUndeploy => { vm with lcm := .bootUndeployFailure }
  | _ => vm

/-- `LifeCycleManager::trigger_deploy_failure`; a live migration that fails is not reported. -/
def triggerDeployFailure (vm : Vm) : Outcome :=
  if vm.lcm = .migrate then revertMigrateAfterFailure vm
  else ⟨afterBootFailure vm, vm.report false, none⟩

/-- `LifeCycleManager::trigger_shutdown_success`. -/
def triggerShutdownSuccess (vm : Vm) : Outcome :=
  let o : Outcome := match vm.lcm with
    | .shutdown => droppingSnapshots keep vm fun vm => ⟨{ vm with lcm := .epilog }, [], none⟩
    | .shutdownPoweroff => droppingSnapshots keep vm fun vm => vm.queue .poweroffSuccess
    | .shutdownUndeploy =>
      droppingSnapshots keep vm fun vm => ⟨{ vm with lcm := .epilogUndeploy }, [], none⟩
    | .saveMigrate => droppingSnapshots keep vm startPrologMigrate
    | _ => vm.ignore
  ⟨o.vm, o.effects ++ if vm.lcm ≠ .saveMigrate then vm.report true else [], o.queued⟩

/-- `LifeCycleManager::trigger_shutdown_failure`; the report is the one of the record afterwards. -/
def triggerShutdownFailure (vm : Vm) : Outcome :=
  let o : Outcome := match vm.lcm with
    | .shutdown | .shutdownPoweroff | .shutdownUndeploy =>
      ⟨Vm.setAction { vm with lcm := .running } .none, [], none⟩
    | .saveMigrate => revertMigrateAfterFailure vm
    | _ => vm.ignore
  ⟨o.vm, o.effects ++ o.vm.report false, o.queued⟩

/-- `LifeCycleManager::trigger_prolog_success`. -/
def triggerPrologSuccess (vm : Vm) : Outcome :=
  match vm.lcm with
  | .prologResume | .prologResumeFailure => ⟨{ vm with lcm := .bootStopped }, [], none⟩
  | .prologUndeploy | .prologUndeployFailure => ⟨{ vm with lcm := .bootUndeploy }, [], none⟩
  | .prologMigrate | .prologMigrateFailure =>
    if vm.action = .poffMigrate ∨ vm.action = .poffHardMigrate then ⟨{ vm with lcm := .boot }, [], none⟩
    else ⟨{ vm with lcm := .bootMigrate }, [], none⟩
  | .prologMigrateUnknown | .prologMigrateUnknownFailure | .prolog | .prologFailure =>
    ⟨{ vm with lcm := .boot }, [], none⟩
  | .prologMigratePoweroff | .prologMigratePoweroffFailure =>
    droppingSnapshots keep vm fun vm => vm.queue .poweroffSuccess
  | .prologMigrateSuspend | .prologMigrateSuspendFailure =>
    droppingSnapshots keep vm fun vm => vm.queue .suspendSuccess
  | _ => vm.ignore

/-- The recovery of a failed migration: the virtual machine goes back to the previous host. -/
def backToPrevious (vm : Vm) (lcm : LcmState) : Outcome :=
  let vm' := Vm.cpPreviousHistory { vm with lcm := lcm }
  ⟨vm', [.delCapacity vm.hid, .addCapacity vm'.hid], some .prologSuccess⟩

/-- `LifeCycleManager::trigger_prolog_failure`; the plan manager is told about a success. -/
def triggerPrologFailure (vm : Vm) : Outcome :=
  let o : Outcome := match vm.lcm with
    | .prolog => ⟨{ vm with lcm := .prologFailure }, [], none⟩
    | .prologMigrate => ⟨{ vm with lcm := .prologMigrateFailure }, [], none⟩
    | .prologMigratePoweroff => ⟨{ vm with lcm := .prologMigratePoweroffFailure }, [], none⟩
    | .prologMigrateSuspend => ⟨{ vm with lcm := .prologMigrateSuspendFailure }, [], none⟩
    | .prologMigrateUnknown => ⟨{ vm with lcm := .prologMigrateUnknownFailure }, [], none⟩
    | .prologResume => ⟨{ vm with lcm := .prologResumeFailure }, [], none⟩
    | .prologUndeploy => ⟨{ vm with lcm := .prologUndeployFailure }, [], none⟩
    | .prologMigrateFailure => backToPrevious vm .prologMigrate
    | .prologMigratePoweroffFailure => backToPrevious vm .prologMigratePoweroff
    | .prologMigrateSuspendFailure => backToPrevious vm .prologMigrateSuspend
    | .prologMigrateUnknownFailure => backToPrevious vm .prologMigrateUnknown
    | _ => vm.ignore
  ⟨o.vm, o.effects ++ o.vm.report true, o.queued⟩

/-- `LifeCycleManager::trigger_epilog_success`. -/
def triggerEpilogSuccess (vm : Vm) : Outcome :=
  match vm.lcm with
  | .epilogStop | .epilogStopFailure =>
    ⟨{ vm with lcm := .epilogStop }, [.delCapacity vm.hid], some .stopSuccess⟩
  | .epilogUndeploy | .epilogUndeployFailure =>
    ⟨{ vm with lcm := .epilogUndeploy }, [.delCapacity vm.hid], some .undeploySuccess⟩
  | .epilog | .epilogFailure => ⟨{ vm with lcm := .epilog }, [.delCapacity vm.hid], some .done⟩
  | .cleanupResubmit => vm.queue .resubmit
  | _ => vm.ignore

/-- `LifeCycleManager::trigger_epilog_failure`. -/
def triggerEpilogFailure (vm : Vm) : Outcome :=
  match vm.lcm with
  | .cleanupResubmit => vm.queue .resubmit
  | .epilog => ⟨{ vm with lcm := .epilogFailure }, [], none⟩
  | .epilogStop => ⟨{ vm with lcm := .epilogStopFailure }, [], none⟩
  | .epilogUndeploy => ⟨{ vm with lcm := .epilogUndeployFailure }, [], none⟩
  | _ => vm.ignore

/-- `LifeCycleManager::trigger_cleanup_callback`. -/
def triggerCleanupCallback (vm : Vm) : Outcome :=
  if vm.lcm = .cleanupResubmit then vm.queue .resubmit else vm.ignore

/-- `LifeCycleManager::trigger_monitor_done`. -/
def triggerMonitorDone (vm : Vm) : Outcome :=
  if vm.lcm = .running then ⟨{ vm with lcm := .unknown }, [], none⟩ else vm.ignore

/-- `LifeCycleManager::trigger_monitor_suspend`. -/
def triggerMonitorSuspend (vm : Vm) : Outcome :=
  match vm.lcm with
  | .running | .unknown =>
    droppingSnapshots keep vm fun vm =>
      (Vm.setAction { vm with lcm := .saveSuspend } .monitor).queue .suspendSuccess
  | _ => vm.ignore

/-- `LifeCycleManager::trigger_monitor_poweroff`. -/
def triggerMonitorPoweroff (vm : Vm) : Outcome :=
  match vm.lcm with
  | .running | .unknown =>
    droppingSnapshots keep vm fun vm =>
      (Vm.setAction { vm with lcm := .shutdownPoweroff } .monitor).queue .poweroffSuccess
  | .shutdown | .shutdownPoweroff | .shutdownUndeploy => vm.queue .shutdownSuccess
  | _ => vm.ignore

/-- `LifeCycleManager::trigger_monitor_poweron`. -/
def triggerMonitorPoweron (vm : Vm) : Outcome :=
  match vm.state with
  | .poweroff | .suspended =>
    ⟨Vm.cpHistory { vm with state := .active, lcm := .running }, [.chargeRunning vm.uid vm.gid], none⟩
  | .active =>
    match vm.lcm with
    | .unknown => ⟨{ vm with lcm := .running }, [], none⟩
    | .boot | .bootPoweroff | .bootUnknown | .bootSuspended | .bootStopped | .bootUndeploy
    | .bootMigrate | .bootMigrateFailure | .bootStoppedFailure | .bootUndeployFailure
    | .bootFailure => vm.queue .deploySuccess
    | _ => vm.ignore
  | _ => vm.ignore

/-! ## The actions of the life-cycle manager -/

/-- `LifeCycleManager::trigger_deploy`; the host is there. -/
def triggerDeploy (vm : Vm) : Outcome :=
  let lcm : LcmState :=
    if vm.previous.isSome ∧ vm.previousAction = .stop then .prologResume
    else if vm.previous.isSome ∧ (vm.previousAction = .undeploy ∨ vm.previousAction = .undeployHard) then
      .prologUndeploy
    else .prolog
  if vm.state = .active then ⟨{ vm with lcm := lcm }, [.addCapacity vm.hid], none⟩ else vm.ignore

/-- `LifeCycleManager::trigger_suspend`. -/
def triggerSuspend (vm : Vm) : Outcome :=
  match vm.state, vm.lcm with
  | .active, .running => ⟨Vm.setAction { vm with lcm := .saveSuspend } .suspend, [], none⟩
  | _, _ => vm.ignore

/-- `LifeCycleManager::trigger_stop`. -/
def triggerStop (vm : Vm) : Outcome :=
  match vm.state, vm.lcm with
  | .active, .running => ⟨Vm.setAction { vm with lcm := .saveStop } .stop, [], none⟩
  | .suspended, _ =>
    ⟨Vm.setAction { vm with state := .active, lcm := .epilogStop } .stop, [.chargeRunning vm.uid vm.gid],
      none⟩
  | _, _ => vm.ignore

/-- `LifeCycleManager::trigger_migrate` of a virtual machine that does not run: what is dropped is released
from the user that makes the request. -/
def bypassSaveMigrate (vm : Vm) (lcm : LcmState) (ra : Requester) : Outcome :=
  let (vm', d) := dropSnapshots keep { vm with state := .active, lcm := lcm } .empty
  ⟨vm'.setAction .migrate,
    (.addCapacity vm.hid :: if vm.hid ≠ vm.previousHid then [.delCapacity vm.previousHid] else []) ++
      d.release ra.uid ra.gid, none⟩

/-- `LifeCycleManager::trigger_migrate`. -/
def triggerMigrate (vm : Vm) (a : VmAction) (ra : Requester) : Outcome :=
  match vm.state, vm.lcm with
  | .active, .running =>
    ⟨Vm.setPreviousAction (Vm.setAction { vm with lcm := .saveMigrate } a) a, [.addCapacity vm.hid], none⟩
  | .poweroff, _ => bypassSaveMigrate keep vm .prologMigratePoweroff ra
  | .suspended, _ => bypassSaveMigrate keep vm .prologMigrateSuspend ra
  | .active, .unknown =>
    bypassSaveMigrate keep (vm.setPreviousAction .migrate) .prologMigrateUnknown ra
  | _, _ => vm.ignore

/-- `LifeCycleManager::trigger_live_migrate`. -/
def triggerLiveMigrate (vm : Vm) : Outcome :=
  match vm.state, vm.lcm with
  | .active, .running =>
    ⟨Vm.setPreviousAction { vm with lcm := .migrate } .liveMigrate, [.addCapacity vm.hid], none⟩
  | _, _ => vm.ignore

/-- `LifeCycleManager::trigger_shutdown`. -/
def triggerShutdown (vm : Vm) (hard : Bool) : Outcome :=
  let a : VmAction := if hard then .terminateHard else .terminate
  match vm.state, vm.lcm with
  | .active, .running | .active, .unknown => ⟨Vm.setAction { vm with lcm := .shutdown } a, [], none⟩
  | .active, .shutdown =>
    if hard then ⟨Vm.setAction { vm with lcm := .shutdown } a, [], none⟩ else vm.ignore
  | .suspended, _ | .poweroff, _ | .stopped, _ | .undeployed, _ =>
    ⟨Vm.setAction { vm with state := .active, lcm := .epilog } .terminate,
      [.chargeRunning vm.uid vm.gid], none⟩
  | _, _ => vm.ignore

/-- `LifeCycleManager::trigger_undeploy`. -/
def triggerUndeploy (vm : Vm) (hard : Bool) : Outcome :=
  let a : VmAction := if hard then .undeployHard else .undeploy
  match vm.state, vm.lcm with
  | .active, .running | .active, .unknown => ⟨Vm.setAction { vm with lcm := .shutdownUndeploy } a, [], none⟩
  | .active, .shutdownUndeploy =>
    if hard then ⟨Vm.setAction { vm with lcm := .shutdownUndeploy } a, [], none⟩ else vm.ignore
  | .poweroff, _ =>
    ⟨Vm.setAction { vm with state := .active, lcm := .epilogUndeploy } .undeploy,
      [.chargeRunning vm.uid vm.gid], none⟩
  | _, _ => vm.ignore

/-- `LifeCycleManager::trigger_poweroff`. -/
def triggerPoweroff (vm : Vm) (hard : Bool) : Outcome :=
  let a : VmAction := if hard then .poweroffHard else .poweroff
  match vm.state, vm.lcm with
  | .active, .running | .active, .unknown => ⟨Vm.setAction { vm with lcm := .shutdownPoweroff } a, [], none⟩
  | .active, .shutdownPoweroff =>
    if hard then ⟨Vm.setAction { vm with lcm := .shutdownPoweroff } a, [], none⟩ else vm.ignore
  | _, _ => vm.ignore

/-- `LifeCycleManager::trigger_restore`. -/
def triggerRestore (vm : Vm) : Outcome :=
  if vm.state = .suspended then
    ⟨(Vm.cpHistory { vm with state := .active, lcm := .bootSuspended }).setAction .resume, [], none⟩
  else vm.ignore

/-- `LifeCycleManager::trigger_restart`. -/
def triggerRestart (vm : Vm) : Outcome :=
  match vm.state, vm.lcm with
  | .active, .unknown => ⟨{ vm with lcm := .bootUnknown }, [], none⟩
  | .poweroff, _ =>
    ⟨(Vm.cpHistory { vm with state := .active, lcm := .bootPoweroff }).setAction .resume, [], none⟩
  | _, _ => vm.ignore

/-- `LifeCycleManager::clean_up_vm`. -/
def cleanUpVm (vm : Vm) (dispose : Bool) : Vm × List Effect × Delta :=
  let vm' := Vm.setAction
    { vm with state := .active, lcm := if dispose then .cleanupDelete else .cleanupResubmit }
    (if dispose then .delete else .deleteRecreate)
  let (vm', d) := dropSnapshots keep vm' .empty
  if vm.state = .poweroff ∨ vm.state = .suspended then
    (vm', [.delCapacity vm.hid], { d with running := true })
  else if vm.lcm = .migrate ∨ vm.lcm = .saveMigrate then
    (vm', [.delCapacity vm.hid, .delCapacity vm.previousHid], d)
  else (vm', [.delCapacity vm.hid], d)

/-- What a clean-up leaves, does and collects. -/
theorem cleanUpVm_eq (vm : Vm) (dispose : Bool) : ∃ history cid, cleanUpVm keep vm dispose =
    ({ vm with
        state := .active
        lcm := if dispose then .cleanupDelete else .cleanupResubmit
        history := history
        snapshots := if keep vm.vmmMad then vm.snapshots else [] },
      .delCapacity vm.hid ::
        if ¬ (vm.state = .poweroff ∨ vm.state = .suspended) ∧ (vm.lcm = .migrate ∨ vm.lcm = .saveMigrate) then
          [.delCapacity vm.previousHid] else [],
      ⟨cid, if keep vm.vmmMad then [] else vm.snapshots, 0,
        decide (vm.state = .poweroff ∨ vm.state = .suspended)⟩) := by
  set vm₁ := Vm.setAction
    { vm with state := .active, lcm := if dispose then .cleanupDelete else .cleanupResubmit }
    (if dispose then .delete else .deleteRecreate) with hvm₁
  have hmad : vm₁.vmmMad = vm.vmmMad := by
    unfold Vm.vmmMad
    rw [hvm₁]
    unfold Vm.setAction
    cases vm.history <;> rfl
  obtain ⟨cid, hdrop⟩ := dropSnapshots_eq keep vm₁
  refine ⟨vm₁.history, cid, ?_⟩
  unfold cleanUpVm
  dsimp only
  rw [← hvm₁, hdrop, hmad]
  by_cases hoff : vm.state = .poweroff ∨ vm.state = .suspended
  · simp only [hoff, if_true, not_true, false_and, if_false, decide_true]
    rfl
  · by_cases hlcm : vm.lcm = .migrate ∨ vm.lcm = .saveMigrate
    · simp only [hoff, hlcm, if_true, if_false, not_false_iff, and_self, decide_false]
      rfl
    · simp only [hoff, hlcm, if_false, and_false, decide_false]
      rfl

/-- `LifeCycleManager::trigger_delete`: what is dropped is released from the user that makes the
request. -/
def triggerDelete (vm : Vm) (ra : Requester) : Outcome :=
  if vm.state ≠ .active then vm.ignore
  else
    match vm.lcm with
    | .cleanupResubmit | .cleanupDelete => Vm.queue { vm with lcm := .cleanupDelete } .done
    | _ =>
      let (vm', effects, d) := cleanUpVm keep vm true
      ⟨vm', effects ++ d.release ra.uid ra.gid, some .done⟩

/-- `LifeCycleManager::trigger_delete_recreate`: what is dropped is released from the owner. -/
def triggerDeleteRecreate (vm : Vm) : Outcome :=
  if vm.state ≠ .active ∧ vm.state ≠ .poweroff ∧ vm.state ≠ .suspended then vm.ignore
  else
    match vm.lcm with
    | .cleanupDelete => vm.ignore
    | .cleanupResubmit => vm.queue .resubmit
    | _ =>
      let (vm', effects, d) := cleanUpVm keep vm false
      let (vm', d) := deleteDiskSnapshots vm' d
      let (vm', d) := deleteSnapshots vm' d
      ⟨vm', effects ++ d.release vm.uid vm.gid, none⟩

/-- The handlers. -/
def Trigger.handle (vm : Vm) : Trigger → Outcome
  | .saveSuccess => triggerSaveSuccess keep vm
  | .saveFailure => triggerSaveFailure vm
  | .deploySuccess => triggerDeploySuccess keep vm
  | .deployFailure => triggerDeployFailure vm
  | .shutdownSuccess => triggerShutdownSuccess keep vm
  | .shutdownFailure => triggerShutdownFailure vm
  | .monitorSuspend => triggerMonitorSuspend keep vm
  | .monitorDone => triggerMonitorDone vm
  | .monitorPoweroff => triggerMonitorPoweroff keep vm
  | .monitorPoweron => triggerMonitorPoweron vm
  | .prologSuccess => triggerPrologSuccess keep vm
  | .prologFailure => triggerPrologFailure vm
  | .epilogSuccess => triggerEpilogSuccess vm
  | .epilogFailure => triggerEpilogFailure vm
  | .cleanupCallback => triggerCleanupCallback vm
  | .deploy => triggerDeploy vm
  | .suspend => triggerSuspend vm
  | .restore => triggerRestore vm
  | .stop => triggerStop vm
  | .migrate a ra => triggerMigrate keep vm a ra
  | .liveMigrate => triggerLiveMigrate vm
  | .shutdown hard => triggerShutdown vm hard
  | .undeploy hard => triggerUndeploy vm hard
  | .poweroff hard => triggerPoweroff vm hard
  | .restart => triggerRestart vm
  | .delete ra => triggerDelete keep vm ra
  | .deleteRecreate => triggerDeleteRecreate keep vm
  | .suspendSuccess => triggerSuspendSuccess vm
  | .stopSuccess => triggerStopSuccess vm
  | .undeploySuccess => triggerUndeploySuccess vm
  | .poweroffSuccess => triggerPoweroffSuccess vm
  | .done => triggerDone vm
  | .resubmit => triggerResubmit vm

end Handlers

/-! ## Requests -/

/-- `VirtualMachineAPI::deploy` and `DispatchManager::deploy`. -/
def deploy (vm : Vm) (hid cid dsId : ℤ) (vmmMad : Text) : Outcome :=
  match vm.state with
  | .pending | .hold => Vm.queue { vm.addHistory hid cid dsId vmmMad with state := .active } .deploy
  | .stopped | .undeployed =>
    ⟨{ vm.addHistory hid cid dsId vmmMad with state := .active }, [.chargeRunning vm.uid vm.gid],
      some .deploy⟩
  | _ => vm.ignore

/-- The checks of `migrate`: not to the same host and datastore, and a live migration changes one of
them. -/
def migrateRefused (vm : Vm) (hid dsId : ℤ) (live : Bool) : Bool :=
  vm.history.isNone || (vm.hid = hid && vm.history.any fun r => r.dsId = dsId) ||
    (live && vm.hid ≠ hid && !(vm.history.any fun r => r.dsId = dsId))

/-- The states of which a migration does not save the virtual machine. -/
def Vm.bypassesSave (vm : Vm) : Bool :=
  match vm.state, vm.lcm with
  | .poweroff, _ | .suspended, _ | .active, .unknown => true
  | _, _ => false

/-- `VirtualMachineAPI::migrate`, with `DispatchManager::migrate` and `live_migrate`. -/
def migrate (vm : Vm) (hid cid dsId : ℤ) (vmmMad : Text) (live : Bool) (a : VmAction) (ra : Requester) :
    Outcome :=
  if migrateRefused vm hid dsId live then vm.ignore
  else
    match vm.state, vm.lcm with
    | .active, .running =>
      (vm.addHistory hid cid dsId vmmMad).queue (if live then .liveMigrate else .migrate a ra)
    | .poweroff, _ | .suspended, _ | .active, .unknown =>
      (vm.addHistory hid cid dsId vmmMad).queue (.migrate a ra)
    | _, _ => vm.ignore

/-- `DispatchManager::suspend`. -/
def suspend (vm : Vm) : Outcome :=
  match vm.state, vm.lcm with
  | .active, .running => vm.queue .suspend
  | _, _ => vm.ignore

/-- `DispatchManager::stop`. -/
def stop (vm : Vm) : Outcome :=
  match vm.state, vm.lcm with
  | .active, .running | .suspended, _ => vm.queue .stop
  | _, _ => vm.ignore

/-- `DispatchManager::undeploy`. -/
def undeploy (vm : Vm) (hard : Bool) : Outcome :=
  match vm.state, vm.lcm with
  | .poweroff, _ | .active, .running | .active, .unknown => vm.queue (.undeploy hard)
  | .active, .shutdownUndeploy => if hard then vm.queue (.undeploy true) else vm.ignore
  | _, _ => vm.ignore

/-- `DispatchManager::poweroff`. -/
def poweroff (vm : Vm) (hard : Bool) : Outcome :=
  match vm.state, vm.lcm with
  | .active, .running | .active, .unknown => vm.queue (.poweroff hard)
  | .active, .shutdownPoweroff => if hard then vm.queue (.poweroff true) else vm.ignore
  | _, _ => vm.ignore

/-- `DispatchManager::resume`; `none` for a wrong state. -/
def dispatchResume (vm : Vm) : Option Outcome :=
  match vm.state, vm.lcm with
  | .stopped, _ | .undeployed, _ => some ⟨{ vm with state := .pending }, [], none⟩
  | .suspended, _ => some (vm.queue .restore)
  | .poweroff, _ | .active, .unknown => some (vm.queue .restart)
  | _, _ => none

/-- The action `resume` of `VirtualMachineAPI::action`: the running part is charged first, and given back
after an error. -/
def resume (vm : Vm) : Outcome :=
  match dispatchResume vm with
  | some o => ⟨o.vm, .chargeRunning vm.uid vm.gid :: o.effects, o.queued⟩
  | none => ⟨vm, [.chargeRunning vm.uid vm.gid, .releaseRunning vm.uid vm.gid], none⟩

/-- `DispatchManager::hold` and `release`. -/
def hold (vm : Vm) : Outcome :=
  if vm.state = .pending then ⟨{ vm with state := .hold }, [], none⟩ else vm.ignore

def releaseHold (vm : Vm) : Outcome :=
  if vm.state = .hold then ⟨{ vm with state := .pending }, [], none⟩ else vm.ignore

/-- The host of a virtual machine loses it, and its resources are freed. -/
def freePlaced (vm : Vm) : Outcome := Outcome.andThen ⟨vm, [.delCapacity vm.hid], none⟩ freeVmResources

/-- `DispatchManager::delete_vm`. -/
def deleteVm (vm : Vm) (ra : Requester) : Outcome :=
  match vm.state with
  | .suspended | .poweroff => freePlaced vm
  | .stopped | .undeployed | .init | .pending | .hold | .cloning | .cloningFailure => freeVmResources vm
  | .active => vm.queue (.delete ra)
  | .done => vm.ignore

/-- `DispatchManager::delete_recreate`; the quotas of a virtual machine that is not placed have accepted
the running part. -/
def deleteRecreate (vm : Vm) : Outcome :=
  match vm.state with
  | .init | .pending | .cloning | .cloningFailure | .done => vm.ignore
  | .stopped | .undeployed =>
    let (vm', d) := deleteDiskSnapshots vm .empty
    ⟨{ vm'.setAction .deleteRecreate with state := .pending, lcm := .lcmInit },
      .chargeRunning vm.uid vm.gid :: d.release vm.uid vm.gid, none⟩
  | .hold => ⟨{ vm.setAction .deleteRecreate with state := .pending, lcm := .lcmInit }, [], none⟩
  | .poweroff | .suspended | .active => vm.queue .deleteRecreate

/-- `DispatchManager::delete_vm_db`. -/
def deleteVmDb (vm : Vm) : Outcome :=
  match vm.state with
  | .suspended | .poweroff | .active => freePlaced vm
  | .stopped | .undeployed | .init | .pending | .hold | .cloning | .cloningFailure => freeVmResources vm
  | .done => vm.ignore

/-- The states of which `terminate` deletes the virtual machine. -/
def LcmState.isFailure : LcmState → Bool
  | .bootFailure | .bootMigrateFailure | .prologMigrateFailure | .prologFailure | .epilogFailure
  | .epilogStopFailure | .epilogUndeployFailure | .prologMigratePoweroffFailure
  | .prologMigrateSuspendFailure | .bootUndeployFailure | .bootStoppedFailure | .prologResumeFailure
  | .prologUndeployFailure | .prologMigrateUnknownFailure => true
  | _ => false

/-- `DispatchManager::terminate`. -/
def terminate (vm : Vm) (hard : Bool) (ra : Requester) : Outcome :=
  match vm.state with
  | .suspended | .poweroff | .stopped | .undeployed => vm.queue (.shutdown false)
  | .init | .pending | .hold | .cloning | .cloningFailure => freeVmResources vm
  | .done => vm.ignore
  | .active =>
    if vm.lcm.isFailure then vm.queue (.delete ra)
    else
      match vm.lcm with
      | .running | .unknown => vm.queue (.shutdown hard)
      | .shutdown => if hard then vm.queue (.shutdown true) else vm.ignore
      | _ => vm.ignore

/-- `LifeCycleManager::recover`, for the states whose handlers are here. -/
def recover (vm : Vm) (success : Bool) : Outcome :=
  if vm.state ≠ .active then vm.ignore
  else
    match vm.lcm with
    | .cleanupDelete => vm.queue .done
    | .cleanupResubmit => vm.queue .resubmit
    | .unknown => ⟨{ vm with lcm := .running }, [], none⟩
    | .prolog | .prologMigrate | .prologMigrateFailure | .prologResume | .prologResumeFailure
    | .prologUndeploy | .prologUndeployFailure | .prologFailure | .prologMigratePoweroff
    | .prologMigratePoweroffFailure | .prologMigrateSuspend | .prologMigrateSuspendFailure
    | .prologMigrateUnknown | .prologMigrateUnknownFailure =>
      vm.queue (if success then .prologSuccess else .prologFailure)
    | .epilog | .epilogStop | .epilogUndeploy | .epilogFailure | .epilogStopFailure
    | .epilogUndeployFailure => vm.queue (if success then .epilogSuccess else .epilogFailure)
    | .boot | .bootUnknown | .bootPoweroff | .bootSuspended | .bootStopped | .bootUndeploy | .migrate
    | .bootMigrate | .bootMigrateFailure | .bootFailure | .bootStoppedFailure | .bootUndeployFailure =>
      vm.queue (if success then .deploySuccess else .deployFailure)
    | .shutdown | .shutdownPoweroff | .shutdownUndeploy =>
      vm.queue (if success then .shutdownSuccess else .shutdownFailure)
    | .saveStop | .saveSuspend | .saveMigrate =>
      vm.queue (if success then .saveSuccess else .saveFailure)
    | _ => vm.ignore

/-- `LifeCycleManager::retry`: the part that failed is started again. -/
def retry (vm : Vm) : Outcome :=
  if vm.state ≠ .active then vm.ignore
  else
    match vm.lcm with
    | .bootFailure => ⟨{ vm with lcm := .boot }, [], none⟩
    | .bootMigrateFailure => ⟨{ vm with lcm := .bootMigrate }, [], none⟩
    | .bootUndeployFailure => ⟨{ vm with lcm := .bootUndeploy }, [], none⟩
    | .bootStoppedFailure => ⟨{ vm with lcm := .bootStopped }, [], none⟩
    | .prologMigrateFailure => ⟨{ vm with lcm := .prologMigrate }, [], none⟩
    | .prologMigratePoweroffFailure => ⟨{ vm with lcm := .prologMigratePoweroff }, [], none⟩
    | .prologMigrateSuspendFailure => ⟨{ vm with lcm := .prologMigrateSuspend }, [], none⟩
    | .prologMigrateUnknownFailure => ⟨{ vm with lcm := .prologMigrateUnknown }, [], none⟩
    | .prologResumeFailure => ⟨{ vm with lcm := .prologResume }, [], none⟩
    | .prologUndeployFailure => ⟨{ vm with lcm := .prologUndeploy }, [], none⟩
    | .prologFailure => ⟨{ vm with lcm := .prolog }, [], none⟩
    | .epilogFailure => ⟨{ vm with lcm := .epilog }, [], none⟩
    | .epilogStopFailure => ⟨{ vm with lcm := .epilogStop }, [], none⟩
    | .epilogUndeployFailure => ⟨{ vm with lcm := .epilogUndeploy }, [], none⟩
    | _ => vm.ignore

/-! ## Events -/

/-- What happens to a virtual machine: actions whose other checks were passed, reports of the drivers and
of the monitoring, and recoveries. -/
inductive Event
  | deploy (hid cid dsId : ℤ) (vmmMad : Text)
  | migrate (hid cid dsId : ℤ) (vmmMad : Text) (live : Bool) (a : VmAction) (ra : Requester)
  | suspend
  | stop
  | undeploy (hard : Bool)
  | poweroff (hard : Bool)
  | resume
  | hold
  | releaseHold
  | terminate (hard : Bool) (ra : Requester)
  | deleteVm (ra : Requester)
  | deleteRecreate
  | deleteVmDb
  | saveSuccess
  | saveFailure
  | deploySuccess
  | deployFailure
  | shutdownSuccess
  | shutdownFailure
  | prologSuccess
  | prologFailure
  | epilogSuccess
  | epilogFailure
  | cleanupCallback
  | monitorDone
  | monitorSuspend
  | monitorPoweroff
  | monitorPoweron
  | recover (success : Bool)
  | retry

/-- A request; the reports of the drivers and of the monitoring are queued. -/
def request (vm : Vm) : Event → Outcome
  | .deploy hid cid dsId vmmMad => deploy vm hid cid dsId vmmMad
  | .migrate hid cid dsId vmmMad live a ra => migrate vm hid cid dsId vmmMad live a ra
  | .suspend => suspend vm
  | .stop => stop vm
  | .undeploy hard => undeploy vm hard
  | .poweroff hard => poweroff vm hard
  | .resume => resume vm
  | .hold => hold vm
  | .releaseHold => releaseHold vm
  | .terminate hard ra => terminate vm hard ra
  | .deleteVm ra => deleteVm vm ra
  | .deleteRecreate => deleteRecreate vm
  | .deleteVmDb => deleteVmDb vm
  | .saveSuccess => vm.queue .saveSuccess
  | .saveFailure => vm.queue .saveFailure
  | .deploySuccess => vm.queue .deploySuccess
  | .deployFailure => vm.queue .deployFailure
  | .shutdownSuccess => vm.queue .shutdownSuccess
  | .shutdownFailure => vm.queue .shutdownFailure
  | .prologSuccess => vm.queue .prologSuccess
  | .prologFailure => vm.queue .prologFailure
  | .epilogSuccess => vm.queue .epilogSuccess
  | .epilogFailure => vm.queue .epilogFailure
  | .cleanupCallback => vm.queue .cleanupCallback
  | .monitorDone => vm.queue .monitorDone
  | .monitorSuspend => vm.queue .monitorSuspend
  | .monitorPoweroff => vm.queue .monitorPoweroff
  | .monitorPoweron => vm.queue .monitorPoweron
  | .recover success => recover vm success
  | .retry => retry vm

/-! ## The queues -/

/-- What happens next to a virtual machine: an event, or a manager runs the first handler of its queue. -/
inductive Step
  | event (e : Event)
  | handler (m : Manager)

/-- The handler that a manager runs: the first one of its queue. -/
def Step.trigger (queue : List Trigger) : Step → Option Trigger
  | .event _ => none
  | .handler m => queue.find? fun t => t.manager = m

/-- What a step does, and the handlers of the virtual machine that wait in the queues afterwards. -/
def Step.run (keep : Text → Bool) (vm : Vm) (queue : List Trigger) : Step → Option (Outcome × List Trigger)
  | .event e => some (request vm e, queue ++ (request vm e).queued.toList)
  | .handler m =>
    ((Step.handler m).trigger queue).map fun t =>
      (t.handle keep vm, (queue.eraseP fun t => t.manager = m) ++ (t.handle keep vm).queued.toList)

/-- Some handlers rely on what the step that queued them has found: nothing else happens to the virtual
machine before they have run. -/
def Step.Undisturbed (relies : Trigger → Bool) (queue : List Trigger) (s : Step) : Prop :=
  ∀ t ∈ queue, relies t = true → queue = [t] ∧ s.trigger queue = some t

instance (relies : Trigger → Bool) (queue : List Trigger) (s : Step) :
    Decidable (s.Undisturbed relies queue) :=
  inferInstanceAs (Decidable (∀ t ∈ queue, _))

/-- A step that disturbs no handler: the handlers that are left rely on nothing. -/
theorem Step.run_cases {keep : Text → Bool} {relies : Trigger → Bool} {vm : Vm} {queue queue' : List Trigger}
    {s : Step} {o : Outcome} (hun : s.Undisturbed relies queue)
    (hrun : s.run keep vm queue = some (o, queue')) :
    (∃ rest, queue' = rest ++ o.queued.toList ∧ ∀ t ∈ rest, relies t = false) ∧
      ((∃ e, s = .event e ∧ o = request vm e ∧ ∀ t ∈ queue, relies t = false) ∨
        ∃ t ∈ queue, s.trigger queue = some t ∧ o = t.handle keep vm ∧
          (relies t = false → ∀ t' ∈ queue, relies t' = false)) := by
  cases s with
  | event e =>
    obtain ⟨rfl, rfl⟩ := Prod.mk.inj (Option.some.inj hrun)
    have hnone : ∀ t ∈ queue, relies t = false := by
      intro t ht
      rw [← Bool.not_eq_true]
      exact fun hrelies => Option.some_ne_none t (hun t ht hrelies).2.symm
    exact ⟨⟨queue, rfl, hnone⟩, Or.inl ⟨e, rfl, rfl, hnone⟩⟩
  | handler m =>
    obtain ⟨t, ht, heq⟩ := Option.map_eq_some_iff.mp hrun
    obtain ⟨rfl, rfl⟩ := Prod.mk.inj heq
    refine ⟨⟨_, rfl, fun t' ht' => ?_⟩, Or.inr ⟨t, List.mem_of_find?_eq_some ht, ht, rfl, ?_⟩⟩
    · -- a handler that relies on its request is alone in the queue, and is the one that runs
      rw [← Bool.not_eq_true]
      intro hrelies
      have hone := (hun t' (List.mem_of_mem_eraseP ht') hrelies).1
      have hm : decide (t.manager = m) = true :=
        List.find?_some (p := fun t : Trigger => decide (t.manager = m)) ht
      obtain rfl : t = t' := by
        have hmem := List.mem_of_find?_eq_some ht
        rw [hone] at hmem
        exact List.mem_singleton.mp hmem
      rw [hone, List.eraseP_cons_of_pos (p := fun t : Trigger => decide (t.manager = m)) hm] at ht'
      exact absurd ht' List.not_mem_nil
    · intro hrelies t' ht'
      rw [← Bool.not_eq_true]
      intro hrelies'
      have hsame := ht.symm.trans (hun t' ht' hrelies').2
      rw [← Option.some.inj hsame, hrelies] at hrelies'
      exact Bool.false_ne_true hrelies'

/-- How many handlers follow a handler at most. -/
def Trigger.depth : Trigger → ℕ
  | .prologFailure | .monitorPoweroff => 2
  | .saveSuccess | .shutdownSuccess | .prologSuccess | .epilogSuccess | .epilogFailure
  | .cleanupCallback | .monitorSuspend | .monitorPoweron | .delete _ | .deleteRecreate => 1
  | _ => 0

theorem depth_queued (keep : Text → Bool) (vm : Vm) (t t' : Trigger)
    (h : (t.handle keep vm).queued = some t') : t'.depth < t.depth := by
  cases t <;> simp only [Trigger.handle, triggerSaveSuccess, triggerSaveFailure, triggerDeploySuccess,
    triggerDeployFailure, triggerShutdownSuccess, triggerShutdownFailure, triggerMonitorSuspend,
    triggerMonitorDone, triggerMonitorPoweroff, triggerMonitorPoweron, triggerPrologSuccess,
    triggerPrologFailure, triggerEpilogSuccess, triggerEpilogFailure, triggerCleanupCallback,
    triggerDeploy, triggerSuspend, triggerRestore, triggerStop, triggerMigrate, triggerLiveMigrate,
    triggerShutdown, triggerUndeploy, triggerPoweroff, triggerRestart, triggerDelete,
    triggerDeleteRecreate, triggerSuspendSuccess, triggerStopSuccess, triggerUndeploySuccess,
    triggerPoweroffSuccess, triggerDone, triggerResubmit] at h
  all_goals
    repeat' split at h
    all_goals cases h
    all_goals simp only [Trigger.depth, Nat.lt_add_one, Nat.zero_lt_succ]

/-- The handler that an outcome has queued runs. -/
def Outcome.advance (keep : Text → Bool) (o : Outcome) : Outcome :=
  match o.queued with
  | none => o
  | some t => o.andThen fun vm => t.handle keep vm

/-- Its handlers run: there are three at most (`queued_settle`). -/
def Outcome.settle (keep : Text → Bool) (o : Outcome) : Outcome :=
  ((o.advance keep).advance keep).advance keep

theorem depth_advance {keep : Text → Bool} {o : Outcome} {n : ℕ}
    (h : ∀ t, o.queued = some t → t.depth < n + 1) (t : Trigger)
    (ht : (o.advance keep).queued = some t) : t.depth < n := by
  unfold Outcome.advance at ht
  cases hq : o.queued with
  | none =>
    rw [hq] at ht
    exact absurd (hq.symm.trans ht) (by simp)
  | some t₁ =>
    rw [hq] at ht
    have hlt := depth_queued keep o.vm t₁ t ht
    have hle := h t₁ hq
    omega

theorem queued_settle (keep : Text → Bool) (o : Outcome) : (o.settle keep).queued = none := by
  have hdepth : ∀ t, o.queued = some t → t.depth < 3 := by
    intro t _
    unfold Trigger.depth
    split <;> omega
  rw [Option.eq_none_iff_forall_ne_some]
  intro t ht
  exact absurd (depth_advance (depth_advance (depth_advance hdepth)) t ht) (Nat.not_lt_zero _)

/-- An event with its handlers, when nothing comes in between. -/
def react (keep : Text → Bool) (vm : Vm) (e : Event) : Outcome := (request vm e).settle keep

end LifeCycle
