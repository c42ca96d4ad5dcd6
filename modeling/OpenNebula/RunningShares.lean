/-
# The running part of a virtual machine

The quotas of a user and of a group have the number, the processors and the memory of the virtual machines
that run.  The running part of a virtual machine is charged when an action is requested and released when
the drivers report.  An outcome is `Fair` when what it charges and releases is the difference between the
running parts that the virtual machine should have, after it and before.
-/
import OpenNebula.LifeCycle

namespace LifeCycle

/-! ## Usage -/

/-- A user or a group. -/
inductive Owner
  | user (uid : ℤ)
  | group (gid : ℤ)
  deriving DecidableEq

def Owner.id : Owner → ℤ
  | user uid => uid
  | group gid => gid

/-- `RUNNING_VMS`, `RUNNING_CPU` and `RUNNING_MEMORY`. -/
inductive RunningMetric
  | vms
  | cpu
  | memory
  deriving DecidableEq

/-- The usage of all the users and groups. -/
abbrev RunningUsage := Owner → RunningMetric → ℚ

/-- Amounts that are charged to a user and a group; `oneadmin` has no quotas. -/
def chargeTo (uid gid : ℤ) (amounts : RunningMetric → ℚ) : RunningUsage := fun a m =>
  if a.id ≠ 0 ∧ (a = .user uid ∨ a = .group gid) then amounts m else 0

/-- What an effect does to the usage, with the running part of the virtual machine it is about. -/
def Effect.onUsage (amounts : RunningMetric → ℚ) : Effect → RunningUsage
  | .chargeRunning uid gid => chargeTo uid gid amounts
  | .releaseRunning uid gid => -chargeTo uid gid amounts
  | .releaseAll uid gid running _ _ => if running then -chargeTo uid gid amounts else 0
  | .quotaDel uid gid d => if d.running then chargeTo uid gid amounts else 0
  | _ => 0

/-- What some effects do to the usage. -/
def usageOf (amounts : RunningMetric → ℚ) (effects : List Effect) : RunningUsage :=
  (effects.map (Effect.onUsage amounts)).sum

/-- The handlers of a resume. -/
def Trigger.resumes : Trigger → Bool
  | .restore | .restart => true
  | _ => false

namespace RunningQuota

/-! ## Effects -/

section Effects

variable (amounts : RunningMetric → ℚ)

@[simp] theorem usageOf_nil : usageOf amounts [] = 0 := rfl

@[simp] theorem usageOf_cons (e : Effect) (l : List Effect) :
    usageOf amounts (e :: l) = e.onUsage amounts + usageOf amounts l := List.sum_cons

@[simp] theorem usageOf_append (l l' : List Effect) :
    usageOf amounts (l ++ l') = usageOf amounts l + usageOf amounts l' := by
  unfold usageOf
  rw [List.map_append, List.sum_append]

@[simp] theorem usageOf_report (vm : Vm) (success : Bool) : usageOf amounts (vm.report success) = 0 := by
  unfold Vm.report
  split
  · rfl
  · split
    · exact add_zero 0
    · rfl

theorem usageOf_release (d : Delta) (uid gid : ℤ) :
    usageOf amounts (d.release uid gid) = if d.running then chargeTo uid gid amounts else 0 := by
  unfold Delta.release
  split
  · rename_i hempty
    rw [hempty]
    rfl
  · exact add_zero _

end Effects

/-! ## One virtual machine -/

/-- A virtual machine that is not active is in no state of the life cycle, and an active one is in none of
the states that are entered from outside of the model. -/
structure Plain (vm : Vm) : Prop where
  idle : vm.state ≠ .active → vm.lcm = .lcmInit
  runs : Vm.stopsRunningQuota vm.lcm = false

/-- The running part of a virtual machine, if it is charged. -/
def share (amounts : RunningMetric → ℚ) (vm : Vm) : RunningUsage :=
  if vm.isRunningQuota then chargeTo vm.uid vm.gid amounts else 0

/-- The handler charges and releases what it should, and queues no resume. -/
structure Fair (vm : Vm) (o : Outcome) : Prop where
  plain : Plain o.vm
  uid : o.vm.uid = vm.uid
  gid : o.vm.gid = vm.gid
  usage : ∀ amounts, share amounts vm + usageOf amounts o.effects = share amounts o.vm
  queued : ∀ t ∈ o.queued, t.resumes = false

section Share

variable {vm vm' : Vm} {amounts : RunningMetric → ℚ} {effects : List Effect}

theorem isRunningQuota_active (h : vm.state = .active) (hruns : Vm.stopsRunningQuota vm.lcm = false) :
    vm.isRunningQuota = true := by
  unfold Vm.isRunningQuota
  rw [h]
  simp only [hruns, Bool.not_false]

theorem Plain.active (h : Plain vm) (hlcm : vm.lcm ≠ .lcmInit) : vm.state = .active := by
  by_contra hstate
  exact hlcm (h.idle hstate)

theorem share_of_not (h : vm.isRunningQuota = false) : share amounts vm = 0 := by
  unfold share
  rw [h]
  rfl

theorem share_of_running (h : vm.isRunningQuota = true) :
    share amounts vm = chargeTo vm.uid vm.gid amounts := by
  unfold share
  rw [if_pos h]

/-- Nothing is charged or released, and the running part is as before. -/
theorem Fair.same (hplain : Plain vm') (hrun : vm'.isRunningQuota = vm.isRunningQuota)
    (huid : vm'.uid = vm.uid) (hgid : vm'.gid = vm.gid)
    (heffects : ∀ amounts, usageOf amounts effects = 0) : Fair vm ⟨vm', effects, none⟩ := by
  refine ⟨hplain, huid, hgid, fun amounts => ?_, fun _ ht => absurd ht (Option.not_mem_none _)⟩
  unfold share
  rw [heffects, add_zero, hrun, huid, hgid]

/-- An active virtual machine stays active. -/
theorem Fair.active (h : Plain vm) (hlcm : vm.lcm ≠ .lcmInit) (hstate : vm'.state = vm.state)
    (hruns : Vm.stopsRunningQuota vm'.lcm = false) (huid : vm'.uid = vm.uid) (hgid : vm'.gid = vm.gid)
    (heffects : ∀ amounts, usageOf amounts effects = 0) : Fair vm ⟨vm', effects, none⟩ := by
  have hactive := h.active hlcm
  have hactive' : vm'.state = .active := hstate.trans hactive
  refine Fair.same ⟨fun hne => absurd hactive' hne, hruns⟩ ?_ huid hgid heffects
  rw [isRunningQuota_active hactive' hruns, isRunningQuota_active hactive h.runs]

/-- The running part is charged. -/
theorem Fair.charge (hnot : vm.isRunningQuota = false) (hplain : Plain vm')
    (hrun : vm'.isRunningQuota = true) (huid : vm'.uid = vm.uid) (hgid : vm'.gid = vm.gid)
    (heffects : ∀ amounts, usageOf amounts effects = chargeTo vm.uid vm.gid amounts) :
    Fair vm ⟨vm', effects, none⟩ := by
  refine ⟨hplain, huid, hgid, fun amounts => ?_, fun _ ht => absurd ht (Option.not_mem_none _)⟩
  rw [share_of_not hnot, share_of_running hrun, heffects, zero_add, huid, hgid]

/-- The running part is released. -/
theorem Fair.release (hrun : vm.isRunningQuota = true) (hplain : Plain vm')
    (hnot : vm'.isRunningQuota = false) (huid : vm'.uid = vm.uid) (hgid : vm'.gid = vm.gid)
    (heffects : ∀ amounts, usageOf amounts effects = -chargeTo vm.uid vm.gid amounts) :
    Fair vm ⟨vm', effects, none⟩ := by
  refine ⟨hplain, huid, hgid, fun amounts => ?_, fun _ ht => absurd ht (Option.not_mem_none _)⟩
  rw [share_of_running hrun, share_of_not hnot, heffects, add_neg_cancel]

/-- An active virtual machine stops. -/
theorem Fair.ends (h : Plain vm) (hlcm : vm.lcm ≠ .lcmInit) (hlcm' : vm'.lcm = .lcmInit)
    (hnot : vm'.isRunningQuota = false) (huid : vm'.uid = vm.uid) (hgid : vm'.gid = vm.gid)
    (heffects : ∀ amounts, usageOf amounts effects = -chargeTo vm.uid vm.gid amounts) :
    Fair vm ⟨vm', effects, none⟩ := by
  refine Fair.release (isRunningQuota_active (h.active hlcm) h.runs) ⟨fun _ => hlcm', ?_⟩ hnot huid hgid
    heffects
  rw [hlcm']
  rfl

theorem Fair.ignore (h : Plain vm) : Fair vm vm.ignore :=
  Fair.same h rfl rfl rfl fun _ => rfl

/-- More effects that have nothing to do with the running part. -/
theorem Fair.append {o : Outcome} (h : Fair vm o) {l : List Effect}
    (hl : ∀ amounts, usageOf amounts l = 0) : Fair vm ⟨o.vm, o.effects ++ l, o.queued⟩ := by
  refine ⟨h.plain, h.uid, h.gid, fun amounts => ?_, h.queued⟩
  dsimp only
  rw [usageOf_append, hl, add_zero]
  exact h.usage amounts

/-- A handler that is none of a resume is queued. -/
theorem Fair.queuing (h : Fair vm ⟨vm', effects, none⟩) {t : Trigger} (ht : t.resumes = false) :
    Fair vm ⟨vm', effects, some t⟩ := by
  refine ⟨h.plain, h.uid, h.gid, h.usage, fun t' ht' => ?_⟩
  rw [← Option.some.inj ht']
  exact ht

theorem Fair.queue (h : Plain vm) {t : Trigger} (ht : t.resumes = false) : Fair vm (vm.queue t) :=
  Fair.queuing (Fair.ignore h) ht

/-- A virtual machine without a running part starts. -/
theorem Fair.starts {vm' : Vm} {effects : List Effect} (hnot : vm.isRunningQuota = false)
    (hstate : vm'.state = .active) (hruns : Vm.stopsRunningQuota vm'.lcm = false)
    (huid : vm'.uid = vm.uid) (hgid : vm'.gid = vm.gid)
    (heffects : ∀ amounts, usageOf amounts effects = chargeTo vm.uid vm.gid amounts) :
    Fair vm ⟨vm', effects, none⟩ :=
  Fair.charge hnot ⟨fun hne => absurd hstate hne, hruns⟩ (isRunningQuota_active hstate hruns) huid hgid
    heffects

/-- The states without a running part. -/
theorem isRunningQuota_off (h : vm.state = .poweroff ∨ vm.state = .suspended ∨ vm.state = .stopped ∨
    vm.state = .undeployed) : vm.isRunningQuota = false := by
  unfold Vm.isRunningQuota
  rcases h with h | h | h | h <;> rw [h]

end Share

/-! ## Outcomes -/

section Outcomes

variable {vm : Vm} {keep : Text → Bool}

theorem Fair.dropping {f : Vm → Outcome}
    (h : ∀ snapshots, Fair { vm with snapshots := snapshots } (f { vm with snapshots := snapshots })) :
    Fair vm (droppingSnapshots keep vm f) := by
  obtain ⟨cid, heq⟩ := dropSnapshots_eq keep vm
  have hfair := h (if keep vm.vmmMad then vm.snapshots else [])
  unfold droppingSnapshots
  rw [heq]
  refine ⟨hfair.plain, hfair.uid, hfair.gid, fun amounts => ?_, hfair.queued⟩
  dsimp only
  rw [usageOf_append, usageOf_release, if_neg Bool.false_ne_true, add_zero]
  exact hfair.usage amounts

theorem fair_startPrologMigrate (h : Plain vm) (hlcm : vm.lcm ≠ .lcmInit) :
    Fair vm (startPrologMigrate vm) := by
  unfold startPrologMigrate
  refine Fair.active h hlcm rfl rfl rfl rfl fun amounts => ?_
  split
  · exact add_zero 0
  · rfl

theorem fair_revertMigrateAfterFailure (h : Plain vm) (hlcm : vm.lcm ≠ .lcmInit) :
    Fair vm (revertMigrateAfterFailure vm) := by
  obtain ⟨history, previous, heq⟩ := Vm.cpPreviousHistory_frame { vm with lcm := .running }
  unfold revertMigrateAfterFailure
  rw [heq]
  refine Fair.active h hlcm rfl rfl rfl rfl fun amounts => ?_
  split
  · exact add_zero 0
  · rfl

theorem fair_backToPrevious (h : Plain vm) (hlcm : vm.lcm ≠ .lcmInit) {lcm : LcmState}
    (hruns : Vm.stopsRunningQuota lcm = false) : Fair vm (backToPrevious vm lcm) := by
  obtain ⟨history, previous, heq⟩ := Vm.cpPreviousHistory_frame { vm with lcm := lcm }
  unfold backToPrevious
  dsimp only
  rw [heq]
  have hfirst : Fair vm ⟨{ vm with lcm := lcm, history := history, previous := previous },
      [.delCapacity vm.hid,
        .addCapacity (Vm.hid { vm with lcm := lcm, history := history, previous := previous })], none⟩ := by
    refine Fair.active h hlcm rfl hruns rfl rfl fun amounts => ?_
    rw [usageOf_cons, usageOf_cons, usageOf_nil]
    exact (zero_add _).trans (add_zero 0)
  exact hfirst.queuing rfl

/-- The release of a virtual machine that runs. -/
theorem usageOf_releaseRunning (h : Plain vm) (hlcm : vm.lcm ≠ .lcmInit) (amounts : RunningMetric → ℚ) :
    usageOf amounts (if vm.isRunningQuota then [.releaseRunning vm.uid vm.gid] else []) =
      -chargeTo vm.uid vm.gid amounts := by
  rw [if_pos (isRunningQuota_active (h.active hlcm) h.runs), usageOf_cons, usageOf_nil, add_zero]
  rfl

/-- What a virtual machine uses is released. -/
theorem fair_freeVmResources (vm : Vm) : Fair vm (freeVmResources vm) := by
  refine ⟨⟨fun _ => rfl, rfl⟩, rfl, rfl, fun amounts => ?_, fun _ ht => absurd ht (Option.not_mem_none _)⟩
  have hdone : share amounts (freeVmResources vm).vm = 0 := rfl
  rw [hdone]
  unfold freeVmResources share
  dsimp only
  rw [usageOf_cons, usageOf_nil, add_zero]
  unfold Effect.onUsage
  dsimp only
  split
  · exact add_neg_cancel _
  · exact add_zero 0

end Outcomes

end RunningQuota

end LifeCycle
