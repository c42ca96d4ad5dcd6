/-
# What most handlers do

Most handlers move a virtual machine from one state of the life cycle to another one, drop its snapshots or
report to the plan manager.  Such an outcome is right for the hosts, for the running part and for the
snapshots alike (`Ordinary`), and it is so whatever state the handler finds: the same case analysis of a
handler serves the three.
-/
import OpenNebula.HostPlaces
import OpenNebula.SnapshotRefunds

namespace LifeCycle

open RunningQuota (Plain Fair isRunningQuota_off isRunningQuota_active share share_of_not
  share_of_running usageOf_cons usageOf_release usageOf_report usageOf_releaseRunning)

open SnapshotQuota (Exact Quiet quiet_nil quiet_report quiet_releaseRunning)

/-- The outcome is right for the hosts, for the running part and for the snapshots. -/
structure Ordinary (vm : Vm) (o : Outcome) : Prop where
  good : ∀ hosts, Inv vm hosts → Good hosts o
  fair : Plain vm → Fair vm o
  own : Exact vm o

/-- A handler that relies on nothing, belongs to no resume and releases nothing from the user of a request. -/
def Trigger.ordinary (t : Trigger) : Bool := !(t.relies || t.resumes || t.forRequester)

/-! ## Kinds of outcomes -/

section Kinds

variable {vm : Vm} {o : Outcome} {keep : Text → Bool}

theorem Ordinary.ignore : Ordinary vm vm.ignore := ⟨fun _ h => h, Fair.ignore, Exact.ignore vm⟩

theorem Ordinary.queuing {vm' : Vm} {effects : List Effect} (h : Ordinary vm ⟨vm', effects, none⟩)
    {t : Trigger} (ht : t.ordinary = true) (hdone : vm'.state = .done ↔ vm.state = .done) :
    Ordinary vm ⟨vm', effects, some t⟩ := by
  unfold Trigger.ordinary at ht
  rw [Bool.not_eq_true', Bool.or_eq_false_iff, Bool.or_eq_false_iff] at ht
  obtain ⟨⟨hrelies, hresumes⟩, hrequester⟩ := ht
  constructor
  · exact fun hosts hinv => ready_of_inv (h.good hosts hinv) hrelies
  · exact fun hplain => (h.fair hplain).queuing hresumes
  · exact h.own.queuing hrequester hdone

theorem Ordinary.queue {t : Trigger} (ht : t.ordinary = true) : Ordinary vm (vm.queue t) :=
  Ordinary.ignore.queuing ht Iff.rfl

/-- The virtual machine without its snapshots. -/
theorem Ordinary.dropping {f : Vm → Outcome}
    (h : ∀ snapshots, Ordinary { vm with snapshots := snapshots } (f { vm with snapshots := snapshots })) :
    Ordinary vm (droppingSnapshots keep vm f) := by
  constructor
  · intro hosts hinv
    exact Good.dropping fun snapshots => (h snapshots).good hosts ⟨hinv.tracks, hinv.idle, hinv.moving⟩
  · intro hplain
    exact Fair.dropping fun snapshots => (h snapshots).fair ⟨hplain.idle, hplain.runs⟩
  · exact Exact.dropping fun snapshots => (h snapshots).own

/-- A report to the plan manager. -/
theorem Ordinary.report (h : Ordinary vm o) (vm' : Vm) (success : Bool) :
    Ordinary vm ⟨o.vm, o.effects ++ vm'.report success, o.queued⟩ := by
  constructor
  · intro hosts hinv
    exact (h.good hosts hinv).report fun hosts => hostsAfter_report hosts vm' success
  · intro hplain
    exact (h.fair hplain).append fun amounts => usageOf_report amounts vm' success
  · exact h.own.append (quiet_report vm' success)

theorem Ordinary.reportIf (h : Ordinary vm o) (vm' : Vm) (success : Bool) (c : Prop) [Decidable c] :
    Ordinary vm ⟨o.vm, o.effects ++ if c then vm'.report success else [], o.queued⟩ := by
  split
  · exact h.report vm' success
  · rw [List.append_nil]
    exact h

/-- The states of the life cycle in which the virtual machine is at its host and has its running part. -/
def LcmState.steady (lcm : LcmState) : Bool := lcmPlace lcm = .current && !Vm.stopsRunningQuota lcm

theorem ne_lcmInit {lcm : LcmState} (h : lcmPlace lcm ≠ .nowhere) : lcm ≠ .lcmInit := by
  rintro rfl
  exact h rfl

/-- An active virtual machine stays at its host; its last record may change. -/
theorem Ordinary.record (hplace : lcmPlace vm.lcm = .current) {lcm : LcmState} (hsteady : lcm.steady = true)
    {history : Option Record} (hhid : Vm.hid { vm with lcm := lcm, history := history } = vm.hid) :
    Ordinary vm ⟨{ vm with lcm := lcm, history := history }, [], none⟩ := by
  unfold LcmState.steady at hsteady
  rw [Bool.and_eq_true, Bool.not_eq_true', decide_eq_true_eq] at hsteady
  constructor
  · exact fun hosts hinv => good_stay hinv hplace rfl hsteady.1 hhid
  · intro hplain
    exact Fair.active hplain (ne_lcmInit (by rw [hplace]; decide)) rfl hsteady.2 rfl rfl fun _ => rfl
  · exact Exact.same rfl rfl rfl rfl id quiet_nil

theorem Ordinary.stay (hplace : lcmPlace vm.lcm = .current) {lcm : LcmState} (hsteady : lcm.steady = true) :
    Ordinary vm ⟨{ vm with lcm := lcm }, [], none⟩ := Ordinary.record hplace hsteady rfl

/-- The action is noted in the last record. -/
theorem Ordinary.note (hplace : lcmPlace vm.lcm = .current) {lcm : LcmState} (hsteady : lcm.steady = true)
    (a : VmAction) : Ordinary vm ⟨Vm.setAction { vm with lcm := lcm } a, [], none⟩ :=
  Ordinary.record hplace hsteady (hid_setAction _ _)

theorem runs_of_ending {lcm : LcmState} (h : lcmPlace lcm = .ending) : Vm.stopsRunningQuota lcm = false := by
  unfold lcmPlace at h
  split at h
  case h_3 | h_4 | h_5 | h_6 | h_7 | h_8 => rfl
  all_goals exact absurd h (by decide)

/-- An active virtual machine leaves its host. -/
theorem Ordinary.ending (hplace : lcmPlace vm.lcm = .current ∨ lcmPlace vm.lcm = .ending) {lcm : LcmState}
    (hplace' : lcmPlace lcm = .ending) : Ordinary vm ⟨{ vm with lcm := lcm }, [], none⟩ := by
  constructor
  · exact fun hosts hinv => good_ending hinv hplace rfl hplace' rfl
  · intro hplain
    refine Fair.active hplain (ne_lcmInit ?_) rfl (runs_of_ending hplace') rfl rfl fun _ => rfl
    rcases hplace with hplace | hplace <;> rw [hplace] <;> decide
  · exact Exact.same rfl rfl rfl rfl id quiet_nil

/-- The host loses the virtual machine, and the handler that relies on it is queued. -/
theorem Ordinary.leave (hplace : lcmPlace vm.lcm = .ending) {lcm : LcmState}
    (hplace' : lcmPlace lcm = .ending) {t : Trigger}
    (ht : t = .stopSuccess ∨ t = .undeploySuccess ∨ t = .done) :
    Ordinary vm ⟨{ vm with lcm := lcm }, [.delCapacity vm.hid], some t⟩ := by
  constructor
  · intro hosts hinv
    rcases ht with rfl | rfl | rfl
    all_goals exact good_epilog hinv hplace hplace'
  · intro hplain
    have hfair : Fair vm ⟨{ vm with lcm := lcm }, [.delCapacity vm.hid], none⟩ :=
      Fair.active hplain (ne_lcmInit (by rw [hplace]; decide)) rfl (runs_of_ending hplace') rfl rfl
        fun _ => add_zero 0
    refine hfair.queuing ?_
    rcases ht with rfl | rfl | rfl <;> rfl
  · have hexact : Exact vm ⟨{ vm with lcm := lcm }, [.delCapacity vm.hid], none⟩ :=
      Exact.same rfl rfl rfl rfl id (Quiet.cons rfl trivial quiet_nil)
    refine hexact.queuing ?_ Iff.rfl
    rcases ht with rfl | rfl | rfl <;> rfl

/-- A virtual machine that does not run starts its last part. -/
theorem Ordinary.epilog (hoff : vm.state = .poweroff ∨ vm.state = .suspended ∨ vm.state = .stopped ∨
    vm.state = .undeployed) {lcm : LcmState} (hplace : lcmPlace lcm = .ending) (a : VmAction) :
    Ordinary vm ⟨Vm.setAction { vm with state := .active, lcm := lcm } a, [.chargeRunning vm.uid vm.gid],
      none⟩ := by
  constructor
  · refine fun hosts hinv => hinv.ending ?_ rfl hplace (hid_setAction _ _)
    unfold Vm.place
    rcases hoff with h | h | h | h <;> simp [h]
  · exact fun _ => Fair.starts (isRunningQuota_off hoff) rfl (runs_of_ending hplace) rfl rfl fun _ =>
      add_zero _
  · exact Exact.moves rfl rfl rfl rfl rfl (Quiet.cons rfl ⟨rfl, rfl⟩ quiet_nil)

/-- A virtual machine at its host stops to run, and its running part is released. -/
theorem Ordinary.off (hplace : lcmPlace vm.lcm = .current) {state : VmState}
    (hoff : state = .poweroff ∨ state = .suspended) {effects : List Effect}
    (hhosts : ∀ hosts, hostsAfter hosts effects = hosts)
    (husage : Plain vm → ∀ amounts, usageOf amounts effects = -chargeTo vm.uid vm.gid amounts)
    (hquiet : Quiet vm.uid vm.gid effects) :
    Ordinary vm ⟨{ vm with state := state, lcm := .lcmInit }, effects, none⟩ := by
  have hlcm := ne_lcmInit (show lcmPlace vm.lcm ≠ .nowhere by rw [hplace]; decide)
  constructor
  · intro hosts hinv
    unfold Good
    dsimp only
    rw [hhosts]
    exact hinv.stay ((place_of_active (hinv.active hlcm)).trans hplace) (Settled.off hoff rfl) rfl
  · intro hplain
    exact Fair.ends hplain hlcm rfl (isRunningQuota_off (hoff.imp_right Or.inl)) rfl rfl (husage hplain)
  · refine Exact.moves rfl rfl rfl rfl ?_ hquiet
    rcases hoff with rfl | rfl <;> rfl

/-- A virtual machine that waits to be placed. -/
theorem Ordinary.waits (hstate : vm.state = .pending ∨ vm.state = .hold) {state : VmState}
    (hstate' : state = .pending ∨ state = .hold) : Ordinary vm ⟨{ vm with state := state }, [], none⟩ := by
  have hidle : vm.state ≠ .active := by rcases hstate with h | h <;> rw [h] <;> decide
  constructor
  · intro hosts hinv
    refine good_rest hinv ?_ ?_ (hinv.idle hidle)
    · rcases hstate with h | h <;> rw [h] <;> rfl
    · rcases hstate' with rfl | rfl <;> rfl
  · refine fun hplain => Fair.same ⟨fun _ => hplain.idle hidle, hplain.runs⟩ ?_ rfl rfl fun _ => rfl
    unfold Vm.isRunningQuota
    rcases hstate with h | h <;> rcases hstate' with rfl | rfl <;> rw [h]
  · refine Exact.moves rfl rfl rfl rfl ?_ quiet_nil
    rcases hstate' with rfl | rfl <;> rfl

theorem ordinary_startPrologMigrate (hlcm : vm.lcm = .saveMigrate) : Ordinary vm (startPrologMigrate vm) :=
  ⟨fun _ h => good_startPrologMigrate h hlcm,
    fun h => RunningQuota.fair_startPrologMigrate h (by rw [hlcm]; decide),
    SnapshotQuota.exact_startPrologMigrate vm⟩

theorem ordinary_revertMigrateAfterFailure (hlcm : lcmPlace vm.lcm = .both) :
    Ordinary vm (revertMigrateAfterFailure vm) :=
  ⟨fun _ h => good_revertMigrateAfterFailure h hlcm,
    fun h => RunningQuota.fair_revertMigrateAfterFailure h (ne_lcmInit (by rw [hlcm]; decide)),
    SnapshotQuota.exact_revertMigrateAfterFailure vm⟩

theorem ordinary_backToPrevious (hlcm : lcmPlace vm.lcm = .current) {lcm : LcmState}
    (hplace : lcmPlace lcm = .current) (hruns : Vm.stopsRunningQuota lcm = false) :
    Ordinary vm (backToPrevious vm lcm) :=
  ⟨fun _ h => good_backToPrevious h hlcm hplace,
    fun h => RunningQuota.fair_backToPrevious h (ne_lcmInit (by rw [hlcm]; decide)) hruns,
    SnapshotQuota.exact_backToPrevious vm lcm⟩

end Kinds

/-! ## Handlers -/

section Handlers

variable {vm : Vm} {keep : Text → Bool}

theorem ordinary_triggerSaveSuccess : Ordinary vm (triggerSaveSuccess keep vm) := by
  unfold triggerSaveSuccess
  split
  · rename_i hlcm
    exact Ordinary.dropping fun _ => ordinary_startPrologMigrate hlcm
  · exact Ordinary.dropping fun _ => Ordinary.queue rfl
  · rename_i hlcm
    exact Ordinary.dropping fun _ => Ordinary.ending (Or.inl (by rw [hlcm]; rfl)) rfl
  · exact Ordinary.ignore

theorem ordinary_triggerSaveFailure : Ordinary vm (triggerSaveFailure vm) := by
  unfold triggerSaveFailure
  split
  · rename_i hlcm
    exact ordinary_revertMigrateAfterFailure (by rw [hlcm]; rfl)
  · rename_i hlcm
    exact Ordinary.note (by rw [hlcm]; rfl) rfl .none
  · rename_i hlcm
    exact Ordinary.note (by rw [hlcm]; rfl) rfl .none
  · exact Ordinary.ignore

theorem ordinary_triggerShutdownSuccess : Ordinary vm (triggerShutdownSuccess keep vm) := by
  refine Ordinary.reportIf ?_ vm true _
  split
  · rename_i hlcm
    exact Ordinary.dropping fun _ => Ordinary.ending (Or.inl (by rw [hlcm]; rfl)) rfl
  · exact Ordinary.dropping fun _ => Ordinary.queue rfl
  · rename_i hlcm
    exact Ordinary.dropping fun _ => Ordinary.ending (Or.inl (by rw [hlcm]; rfl)) rfl
  · rename_i hlcm
    exact Ordinary.dropping fun _ => ordinary_startPrologMigrate hlcm
  · exact Ordinary.ignore

theorem ordinary_triggerShutdownFailure : Ordinary vm (triggerShutdownFailure vm) := by
  refine Ordinary.report ?_ _ false
  split
  case h_4 =>
    rename_i hlcm
    exact ordinary_revertMigrateAfterFailure (by rw [hlcm]; rfl)
  case h_5 => exact Ordinary.ignore
  all_goals
    rename_i hlcm
    exact Ordinary.note (by rw [hlcm]; rfl) rfl .none

theorem ordinary_triggerPrologSuccess : Ordinary vm (triggerPrologSuccess keep vm) := by
  unfold triggerPrologSuccess
  split
  case h_5 | h_6 =>
    rename_i hlcm
    split
    · exact Ordinary.stay (by rw [hlcm]; rfl) rfl
    · exact Ordinary.stay (by rw [hlcm]; rfl) rfl
  case h_11 | h_12 | h_13 | h_14 => exact Ordinary.dropping fun _ => Ordinary.queue rfl
  case h_15 => exact Ordinary.ignore
  all_goals
    rename_i hlcm
    exact Ordinary.stay (by rw [hlcm]; rfl) rfl

theorem ordinary_triggerPrologFailure : Ordinary vm (triggerPrologFailure vm) := by
  refine Ordinary.report ?_ _ true
  split
  case h_8 | h_9 | h_10 | h_11 =>
    rename_i hlcm
    exact ordinary_backToPrevious (by rw [hlcm]; rfl) rfl rfl
  case h_12 => exact Ordinary.ignore
  all_goals
    rename_i hlcm
    exact Ordinary.stay (by rw [hlcm]; rfl) rfl

theorem ordinary_triggerEpilogSuccess : Ordinary vm (triggerEpilogSuccess vm) := by
  unfold triggerEpilogSuccess
  split
  case h_7 => exact Ordinary.queue rfl
  case h_8 => exact Ordinary.ignore
  all_goals
    rename_i hlcm
    exact Ordinary.leave (by rw [hlcm]; rfl) rfl (by simp)

theorem ordinary_triggerEpilogFailure : Ordinary vm (triggerEpilogFailure vm) := by
  unfold triggerEpilogFailure
  split
  case h_1 => exact Ordinary.queue rfl
  case h_5 => exact Ordinary.ignore
  all_goals
    rename_i hlcm
    exact Ordinary.ending (Or.inr (by rw [hlcm]; rfl)) rfl

theorem ordinary_triggerCleanupCallback : Ordinary vm (triggerCleanupCallback vm) := by
  unfold triggerCleanupCallback
  split
  · exact Ordinary.queue rfl
  · exact Ordinary.ignore

theorem ordinary_triggerMonitorDone : Ordinary vm (triggerMonitorDone vm) := by
  unfold triggerMonitorDone
  split
  · rename_i hlcm
    exact Ordinary.stay (by rw [hlcm]; rfl) rfl
  · exact Ordinary.ignore

theorem ordinary_triggerMonitorSuspend : Ordinary vm (triggerMonitorSuspend keep vm) := by
  unfold triggerMonitorSuspend
  split
  case h_3 => exact Ordinary.ignore
  all_goals
    rename_i hlcm
    exact Ordinary.dropping fun _ => (Ordinary.note (by rw [hlcm]; rfl) rfl .monitor).queuing rfl Iff.rfl

theorem ordinary_triggerMonitorPoweroff : Ordinary vm (triggerMonitorPoweroff keep vm) := by
  unfold triggerMonitorPoweroff
  split
  case h_1 | h_2 =>
    rename_i hlcm
    exact Ordinary.dropping fun _ => (Ordinary.note (by rw [hlcm]; rfl) rfl .monitor).queuing rfl Iff.rfl
  case h_6 => exact Ordinary.ignore
  all_goals exact Ordinary.queue rfl

theorem ordinary_triggerMonitorPoweron : Ordinary vm (triggerMonitorPoweron vm) := by
  have hon : vm.state = .poweroff ∨ vm.state = .suspended → Ordinary vm
      ⟨Vm.cpHistory { vm with state := .active, lcm := .running }, [.chargeRunning vm.uid vm.gid],
        none⟩ := by
    intro hstate
    have hhid := hid_cpHistory { vm with state := .active, lcm := .running }
    obtain ⟨history, previous, heq⟩ := Vm.cpHistory_frame { vm with state := .active, lcm := .running }
    rw [heq] at hhid ⊢
    constructor
    · exact fun hosts hinv => hinv.stay (place_of_powered hstate) (Settled.active rfl rfl) hhid
    · exact fun _ => Fair.starts (isRunningQuota_off (hstate.imp_right Or.inl)) rfl rfl rfl rfl fun _ =>
        add_zero _
    · exact Exact.moves rfl rfl rfl rfl rfl (Quiet.cons rfl ⟨rfl, rfl⟩ quiet_nil)
  unfold triggerMonitorPoweron
  split
  · rename_i hstate
    exact hon (Or.inl hstate)
  · rename_i hstate
    exact hon (Or.inr hstate)
  · split
    case h_1 =>
      rename_i hlcm
      exact Ordinary.stay (by rw [hlcm]; rfl) rfl
    case h_13 => exact Ordinary.ignore
    all_goals exact Ordinary.queue rfl
  · exact Ordinary.ignore

theorem ordinary_triggerSuspend : Ordinary vm (triggerSuspend vm) := by
  unfold triggerSuspend
  split
  · rename_i hlcm
    exact Ordinary.note (by rw [hlcm]; rfl) rfl .suspend
  · exact Ordinary.ignore

theorem ordinary_triggerStop : Ordinary vm (triggerStop vm) := by
  unfold triggerStop
  split
  · rename_i hlcm
    exact Ordinary.note (by rw [hlcm]; rfl) rfl .stop
  · rename_i hstate
    exact Ordinary.epilog (Or.inr (Or.inl hstate)) rfl .stop
  · exact Ordinary.ignore

theorem ordinary_triggerShutdown (hard : Bool) : Ordinary vm (triggerShutdown vm hard) := by
  unfold triggerShutdown
  dsimp only
  split
  case h_3 =>
    rename_i hlcm
    split
    · exact Ordinary.note (by rw [hlcm]; rfl) rfl _
    · exact Ordinary.ignore
  case h_8 => exact Ordinary.ignore
  case h_1 | h_2 =>
    rename_i hlcm
    exact Ordinary.note (by rw [hlcm]; rfl) rfl _
  all_goals
    rename_i hstate
    exact Ordinary.epilog (by rw [hstate]; decide) rfl .terminate

theorem ordinary_triggerUndeploy (hard : Bool) : Ordinary vm (triggerUndeploy vm hard) := by
  unfold triggerUndeploy
  dsimp only
  split
  case h_3 =>
    rename_i hlcm
    split
    · exact Ordinary.note (by rw [hlcm]; rfl) rfl _
    · exact Ordinary.ignore
  case h_4 =>
    rename_i hstate
    exact Ordinary.epilog (Or.inl hstate) rfl .undeploy
  case h_5 => exact Ordinary.ignore
  all_goals
    rename_i hlcm
    exact Ordinary.note (by rw [hlcm]; rfl) rfl _

theorem ordinary_triggerPoweroff (hard : Bool) : Ordinary vm (triggerPoweroff vm hard) := by
  unfold triggerPoweroff
  dsimp only
  split
  case h_3 =>
    rename_i hlcm
    split
    · exact Ordinary.note (by rw [hlcm]; rfl) rfl _
    · exact Ordinary.ignore
  case h_4 => exact Ordinary.ignore
  all_goals
    rename_i hlcm
    exact Ordinary.note (by rw [hlcm]; rfl) rfl _

theorem ordinary_triggerSuspendSuccess : Ordinary vm (triggerSuspendSuccess vm) := by
  unfold triggerSuspendSuccess
  split
  case h_6 => exact Ordinary.ignore
  all_goals
    rename_i hlcm
    have hoff : Ordinary vm
        ⟨{ vm with state := .suspended, lcm := .lcmInit }, [.releaseRunning vm.uid vm.gid], none⟩ :=
      Ordinary.off (by rw [hlcm]; rfl) (Or.inr rfl) (fun _ => rfl) (fun _ _ => add_zero _)
        (Quiet.cons rfl ⟨rfl, rfl⟩ quiet_nil)
    exact hoff.report vm true

theorem ordinary_triggerPoweroffSuccess : Ordinary vm (triggerPoweroffSuccess vm) := by
  unfold triggerPoweroffSuccess
  split
  case h_11 => exact Ordinary.ignore
  all_goals
    rename_i hlcm
    have hoff : Ordinary vm ⟨{ vm with state := .poweroff, lcm := .lcmInit },
        if vm.isRunningQuota then [.releaseRunning vm.uid vm.gid] else [], none⟩ := by
      refine Ordinary.off (by rw [hlcm]; rfl) (Or.inl rfl) (fun _ => ?_) (fun h amounts => ?_)
        (quiet_releaseRunning vm)
      · split <;> rfl
      · exact usageOf_releaseRunning h (by rw [hlcm]; decide) amounts
    exact hoff.report vm true

theorem ordinary_triggerResubmit : Ordinary vm (triggerResubmit vm) := by
  unfold triggerResubmit
  split
  · rename_i hlcm
    have hne : vm.lcm ≠ .lcmInit := by rw [hlcm]; decide
    constructor
    · intro hosts hinv
      exact hinv.rest ((place_of_active (hinv.active hne)).trans (by rw [hlcm]; rfl)) (Unplaced.off rfl rfl)
    · intro hplain
      refine Fair.same ⟨fun _ => rfl, rfl⟩ ?_ rfl rfl fun _ => rfl
      rw [isRunningQuota_active (hplain.active hne) hplain.runs]
      rfl
    · exact Exact.moves rfl rfl rfl rfl rfl quiet_nil
  · exact Ordinary.ignore

/-- The handlers that are ordinary in every state. -/
def Trigger.simple : Trigger → Bool
  | .deploySuccess | .deployFailure | .deploy | .restore | .migrate _ _ | .liveMigrate | .restart
  | .delete _ | .deleteRecreate | .stopSuccess | .undeploySuccess | .done => false
  | _ => true

/-- **The handlers that are ordinary** in every state. -/
theorem ordinary_handle {t : Trigger} (ht : t.simple = true) : Ordinary vm (t.handle keep vm) := by
  cases t with
  | saveSuccess => exact ordinary_triggerSaveSuccess
  | saveFailure => exact ordinary_triggerSaveFailure
  | shutdownSuccess => exact ordinary_triggerShutdownSuccess
  | shutdownFailure => exact ordinary_triggerShutdownFailure
  | monitorSuspend => exact ordinary_triggerMonitorSuspend
  | monitorDone => exact ordinary_triggerMonitorDone
  | monitorPoweroff => exact ordinary_triggerMonitorPoweroff
  | monitorPoweron => exact ordinary_triggerMonitorPoweron
  | prologSuccess => exact ordinary_triggerPrologSuccess
  | prologFailure => exact ordinary_triggerPrologFailure
  | epilogSuccess => exact ordinary_triggerEpilogSuccess
  | epilogFailure => exact ordinary_triggerEpilogFailure
  | cleanupCallback => exact ordinary_triggerCleanupCallback
  | suspend => exact ordinary_triggerSuspend
  | stop => exact ordinary_triggerStop
  | shutdown hard => exact ordinary_triggerShutdown hard
  | undeploy hard => exact ordinary_triggerUndeploy hard
  | poweroff hard => exact ordinary_triggerPoweroff hard
  | suspendSuccess => exact ordinary_triggerSuspendSuccess
  | poweroffSuccess => exact ordinary_triggerPoweroffSuccess
  | resubmit => exact ordinary_triggerResubmit
  | _ => exact absurd ht Bool.false_ne_true

end Handlers

/-! ## Requests -/

section Requests

variable {vm : Vm}

theorem ordinary_deploy (hid cid dsId : ℤ) (vmmMad : Text) :
    Ordinary vm (deploy vm hid cid dsId vmmMad) := by
  have hactive : ∀ effects, vm.state.isOff = true → vm.state ≠ .done →
      (∀ hosts, hostsAfter hosts effects = hosts) → Quiet vm.uid vm.gid effects →
      (∀ amounts, share amounts vm + usageOf amounts effects = chargeTo vm.uid vm.gid amounts) →
      Ordinary vm ⟨{ vm.addHistory hid cid dsId vmmMad with state := .active }, effects, some .deploy⟩ := by
    intro effects hoff hdone hhosts hquiet husage
    constructor
    · intro hosts hinv
      have hlcm : vm.lcm = .lcmInit := hinv.idle fun hactive => by
        rw [hactive] at hoff
        exact absurd hoff (by decide)
      have hun : Unplaced { vm.addHistory hid cid dsId vmmMad with state := .active } :=
        Unplaced.active rfl ((congrArg lcmPlace hlcm).trans rfl)
      unfold Good
      dsimp only
      rw [hhosts]
      exact ⟨hinv.rest (place_of_off hoff) hun, hun.place⟩
    · intro hplain
      refine ⟨⟨fun hne => absurd rfl hne, hplain.runs⟩, rfl, rfl, fun amounts => ?_, fun t ht => ?_⟩
      · have hrun : Vm.isRunningQuota { vm.addHistory hid cid dsId vmmMad with state := .active } = true :=
          isRunningQuota_active rfl hplain.runs
        rw [husage amounts, share_of_running hrun]
        rfl
      · rw [← Option.some.inj ht]
        rfl
    · have hexact : Exact vm ⟨{ vm.addHistory hid cid dsId vmmMad with state := .active }, effects, none⟩ :=
        Exact.moves rfl rfl rfl rfl rfl hquiet
      exact hexact.queuing rfl (iff_of_false (show ¬ VmState.active = .done by decide) hdone)
  unfold deploy
  split
  case h_5 => exact Ordinary.ignore
  case h_1 | h_2 =>
    rename_i hstate
    refine hactive [] (by rw [hstate]; rfl) (by rw [hstate]; decide) (fun _ => rfl) quiet_nil fun _ => ?_
    rw [share_of_running (by unfold Vm.isRunningQuota; rw [hstate])]
    exact add_zero _
  all_goals
    rename_i hstate
    refine hactive _ (by rw [hstate]; rfl) (by rw [hstate]; decide) (fun _ => rfl)
      (Quiet.cons rfl ⟨rfl, rfl⟩ quiet_nil) fun _ => ?_
    rw [share_of_not (isRunningQuota_off (by rw [hstate]; decide)), zero_add]
    exact add_zero _

theorem ordinary_suspend : Ordinary vm (suspend vm) := by
  unfold suspend
  split
  · exact Ordinary.queue rfl
  · exact Ordinary.ignore

theorem ordinary_stop : Ordinary vm (stop vm) := by
  unfold stop
  split
  case h_3 => exact Ordinary.ignore
  all_goals exact Ordinary.queue rfl

theorem ordinary_undeploy (hard : Bool) : Ordinary vm (undeploy vm hard) := by
  unfold undeploy
  split
  case h_4 =>
    split
    · exact Ordinary.queue rfl
    · exact Ordinary.ignore
  case h_5 => exact Ordinary.ignore
  all_goals exact Ordinary.queue rfl

theorem ordinary_poweroff (hard : Bool) : Ordinary vm (poweroff vm hard) := by
  unfold poweroff
  split
  case h_3 =>
    split
    · exact Ordinary.queue rfl
    · exact Ordinary.ignore
  case h_4 => exact Ordinary.ignore
  all_goals exact Ordinary.queue rfl

theorem ordinary_hold : Ordinary vm (hold vm) := by
  unfold hold
  split
  · rename_i hstate
    exact Ordinary.waits (Or.inl hstate) (Or.inr rfl)
  · exact Ordinary.ignore

theorem ordinary_releaseHold : Ordinary vm (releaseHold vm) := by
  unfold releaseHold
  split
  · rename_i hstate
    exact Ordinary.waits (Or.inr hstate) (Or.inl rfl)
  · exact Ordinary.ignore

theorem ordinary_deleteRecreate : Ordinary vm (deleteRecreate vm) := by
  have hstop : vm.state = .stopped ∨ vm.state = .undeployed → Ordinary vm
      ⟨{ (deleteDiskSnapshots vm .empty).1.setAction .deleteRecreate with
          state := .pending, lcm := .lcmInit },
        .chargeRunning vm.uid vm.gid ::
          (deleteDiskSnapshots vm .empty).2.release vm.uid vm.gid, none⟩ := by
    intro hstate
    constructor
    · intro hosts hinv
      unfold Good
      dsimp only
      rw [hostsAfter_cons, hostsAfter_release]
      exact good_rest hinv (by rcases hstate with h | h <;> rw [h] <;> rfl) rfl rfl
    · intro _
      refine Fair.charge (isRunningQuota_off (Or.inr (Or.inr hstate))) ⟨fun _ => rfl, rfl⟩ rfl rfl rfl
        fun amounts => ?_
      rw [usageOf_cons, usageOf_release]
      exact add_zero _
    · have hcharge : Quiet vm.uid vm.gid [.chargeRunning vm.uid vm.gid] :=
        Quiet.cons rfl ⟨rfl, rfl⟩ quiet_nil
      refine Exact.collects hcharge ?_ rfl rfl rfl
      show 0 + (0 + vm.diskSnapshots) =
        snapshotsSize vm.snapshots + vm.diskSnapshots - (snapshotsSize vm.snapshots + 0)
      ring
  unfold deleteRecreate
  split
  case h_6 =>
    rename_i hstate
    exact hstop (Or.inl hstate)
  case h_7 =>
    rename_i hstate
    exact hstop (Or.inr hstate)
  case h_8 =>
    rename_i hstate
    constructor
    · exact fun hosts hinv => good_rest hinv (by rw [hstate]; rfl) rfl rfl
    · refine fun _ => Fair.same ⟨fun _ => rfl, rfl⟩ ?_ rfl rfl fun _ => rfl
      unfold Vm.isRunningQuota
      rw [hstate]
    · exact Exact.moves rfl rfl rfl rfl rfl quiet_nil
  case h_9 | h_10 | h_11 => exact Ordinary.queue rfl
  all_goals exact Ordinary.ignore

theorem ordinary_recover (success : Bool) : Ordinary vm (recover vm success) := by
  unfold recover
  split
  · exact Ordinary.ignore
  · rename_i hstate
    split
    case h_1 =>
      rename_i hlcm
      refine ⟨fun hosts hinv => ⟨hinv, hinv.nowhere ?_⟩, fun h => Fair.queue h rfl, Exact.queue vm rfl⟩
      exact (place_of_active (not_not.mp hstate)).trans (by rw [hlcm]; rfl)
    case h_3 =>
      rename_i hlcm
      exact Ordinary.stay (by rw [hlcm]; rfl) rfl
    case h_42 => exact Ordinary.ignore
    all_goals
      refine Ordinary.queue ?_
      first
        | rfl
        | (split <;> rfl)

theorem ordinary_retry : Ordinary vm (retry vm) := by
  unfold retry
  split
  · exact Ordinary.ignore
  · split
    case h_12 | h_13 | h_14 =>
      rename_i hlcm
      exact Ordinary.ending (Or.inr (by rw [hlcm]; rfl)) rfl
    case h_15 => exact Ordinary.ignore
    all_goals
      rename_i hlcm
      exact Ordinary.stay (by rw [hlcm]; rfl) rfl

end Requests

end LifeCycle
