/-
# Backup jobs (`src/vm/BackupJob.cc`)

A backup job has the virtual machines of its attribute `BACKUP_VMS`, and four collections of them:
the ones with a backup (`updated`), the ones that wait for it (`outdated`), the ones in progress
(`backingUp`) and the ones that failed (`error`).  The collections are changed by requests, by the
scheduler and by the reports of the backups.  A report is not checked against the collections, so a
late report breaks the partition; `Expected` is the condition on each report under which it is kept
(`partition_of_expected`).

Conventions of the embedding:

* `BACKUP_VMS` is the list of the numbers in its text; it is `none` when the attribute is not there.
* The times of the job are left out: no set depends on them.
-/
import OpenNebula.ObjectCollection
import OpenNebula.Transition

/-- The virtual machines of the pool with the job each one is in; -1 stands for no job. -/
abbrev VmJobs := ℤ → Option ℤ

/-- `BackupJob`. -/
structure BackupJob where
  oid : ℤ
  backupVms : Option (List ℤ)
  updated : ObjectCollection
  outdated : ObjectCollection
  backingUp : ObjectCollection
  error : ObjectCollection

namespace BackupJob

/-! ## Operations -/

/-- `BackupJob::execute`. -/
def execute (j : BackupJob) : Option String × BackupJob :=
  if 0 < j.backingUp.card ∨ 0 < j.outdated.card then
    (some "Unable to execute Backup Job, pending backups in progress", j)
  else
    let j' := { j with error := ∅, updated := ∅ }
    match j.backupVms with
    | none => (some "Wrong BACKUP_VMS attribute or not defined", j')
    | some vms => (none, { j' with outdated := j'.outdated ∪ vms.toFinset })

/-- `BackupJob::cancel`. -/
def cancel (j : BackupJob) : BackupJob := { j with outdated := ∅, backingUp := ∅ }

/-- `BackupJob::retry`. -/
def retry (j : BackupJob) : BackupJob := { j with outdated := j.outdated ∪ j.error, error := ∅ }

/-- `BackupJob::backup_started`. -/
def backupStarted (j : BackupJob) (vmId : ℤ) : BackupJob :=
  { j with outdated := (j.outdated.del vmId).2, backingUp := (j.backingUp.add vmId).2 }

/-- `BackupJob::remove_vm`. -/
def removeVm (j : BackupJob) (vmId : ℤ) : BackupJob :=
  let j' := { j with outdated := (j.outdated.del vmId).2 }
  match j.backupVms with
  | none => j'
  | some vms => { j' with backupVms := some (vms.filter fun v => v ≠ vmId) }

/-- `BackupJob::backup_finished`. -/
def backupFinished (j : BackupJob) (vmId : ℤ) (success : Bool) : BackupJob :=
  let j' := { j with backingUp := (j.backingUp.del vmId).2 }
  if success then { j' with updated := (j'.updated.add vmId).2 }
  else { j' with error := (j'.error.add vmId).2 }

/-- `BackupJob::add_error`. -/
def addError (j : BackupJob) (vmId : ℤ) : BackupJob :=
  { j with outdated := (j.outdated.del vmId).2, error := (j.error.add vmId).2 }

/-- The loop of `process_backup_vms` over the new virtual machines.  It stops at one that is in
another job. -/
def addToJob (bjid : ℤ) (jobExists : ℤ → Bool) : List ℤ → VmJobs → Option String × VmJobs
  | [], vms => (none, vms)
  | v :: vs, vms =>
    match vms v with
    | none => addToJob bjid jobExists vs vms
    | some current =>
      if current ≠ -1 ∧ current ≠ bjid ∧ jobExists current = true then
        (some ("Unable to add VM " ++ toString v ++ " to Backup Job " ++ toString bjid ++
          ". It's already in Backup Job " ++ toString current), vms)
      else addToJob bjid jobExists vs (Function.update vms v (some bjid))

/-- The virtual machines of a list leave the job. -/
def removeFromJob (bjid : ℤ) (vs : List ℤ) (vms : VmJobs) : VmJobs :=
  vs.foldl (fun vms v => if vms v = some bjid then Function.update vms v (some (-1)) else vms) vms

/-- `BackupJob::process_backup_vms`. -/
def processBackupVms (bjid : ℤ) (jobExists : ℤ → Bool) (vmsNew vmsOld : List ℤ) (vms : VmJobs) :
    Option String × VmJobs :=
  let added := (vmsNew.toFinset \ vmsOld.toFinset).sort (· ≤ ·)
  let deleted := (vmsOld.toFinset \ vmsNew.toFinset).sort (· ≤ ·)
  match addToJob bjid jobExists added vms with
  | (some error, vms') => (some error, removeFromJob bjid added vms')
  | (none, vms') => (none, removeFromJob bjid deleted vms')

/-- `std::unique`: equal neighbours are one element. -/
def unique (vms : List ℤ) : List ℤ := vms.destutter (· ≠ ·)

/-- `BackupJob::replace_template` and `parse`: a new value of `BACKUP_VMS`.  The template comes back
when the value is refused. -/
def updateVms (j : BackupJob) (vms : List ℤ) (jobExists : ℤ → Bool) (pool : VmJobs) :
    Option String × VmJobs × BackupJob :=
  let vmsNew := unique vms
  match processBackupVms j.oid jobExists vmsNew (j.backupVms.getD []) pool with
  | (some error, pool') => (some error, pool', j)
  | (none, pool') =>
    let base := vmsNew.toFinset
    (none, pool', { j with
      backupVms := some vmsNew
      updated := (j.updated.delNotPresent base).2
      outdated := (j.outdated.delNotPresent base).2
      backingUp := (j.backingUp.delNotPresent base).2
      error := (j.error.delNotPresent base).2 })

/-! ## Runs -/

/-- Requests and reports. -/
inductive Event where
  | execute
  | cancel
  | retry
  | updateVms (vms : List ℤ) (jobExists : ℤ → Bool) (pool : VmJobs)
  | removeVm (vmId : ℤ)
  | backupStarted (vmId : ℤ)
  | backupFinished (vmId : ℤ) (success : Bool)
  | addError (vmId : ℤ)

/-- The job after an event. -/
def apply (j : BackupJob) : Event → BackupJob
  | .execute => j.execute.2
  | .cancel => j.cancel
  | .retry => j.retry
  | .updateVms vms jobExists pool => (j.updateVms vms jobExists pool).2.2
  | .removeVm vmId => j.removeVm vmId
  | .backupStarted vmId => j.backupStarted vmId
  | .backupFinished vmId success => j.backupFinished vmId success
  | .addError vmId => j.addError vmId

/-- One event of a run. -/
def step (j : BackupJob) (e : Event) : Option BackupJob := some (j.apply e)

/-- A new job: nothing is in the collections. -/
def New (j : BackupJob) : Prop := j.updated = ∅ ∧ j.outdated = ∅ ∧ j.backingUp = ∅ ∧ j.error = ∅

/-- The virtual machine is listed in the job. -/
def Listed (j : BackupJob) (v : ℤ) : Prop := v ∈ j.backupVms.getD []

instance (j : BackupJob) (v : ℤ) : Decidable (j.Listed v) := inferInstanceAs (Decidable (_ ∈ _))

/-- Each virtual machine is in at most one collection, and it is listed in the job. -/
structure Partition (j : BackupJob) : Prop where
  exclusive : ObjectCollection.Exclusive j.updated j.outdated j.backingUp j.error
  listed : ∀ v, v ∈ j.updated ∨ v ∈ j.outdated ∨ v ∈ j.backingUp ∨ v ∈ j.error → j.Listed v

/-- The report finds its virtual machine in the job and in the stage before it. -/
def Expected (j : BackupJob) : Event → Prop
  | .removeVm v => v ∉ j.updated ∧ v ∉ j.backingUp ∧ v ∉ j.error
  | .backupStarted v => j.Listed v ∧ v ∉ j.updated ∧ v ∉ j.error
  | .backupFinished v true => j.Listed v ∧ v ∉ j.outdated ∧ v ∉ j.error
  | .backupFinished v false => j.Listed v ∧ v ∉ j.outdated ∧ v ∉ j.updated
  | .addError v => j.Listed v ∧ v ∉ j.updated ∧ v ∉ j.backingUp
  | _ => True

/-! ## The partition -/

section Partition

variable {j : BackupJob}

/-- The partition of one virtual machine. -/
def At (j : BackupJob) (v : ℤ) : Prop :=
  ((v ∈ j.updated → v ∉ j.outdated ∧ v ∉ j.backingUp ∧ v ∉ j.error) ∧
    (v ∈ j.outdated → v ∉ j.backingUp ∧ v ∉ j.error) ∧ (v ∈ j.backingUp → v ∉ j.error)) ∧
  (v ∈ j.updated ∨ v ∈ j.outdated ∨ v ∈ j.backingUp ∨ v ∈ j.error → j.Listed v)

theorem partition_iff : j.Partition ↔ ∀ v, j.At v := by
  constructor
  · intro h v
    exact ⟨ObjectCollection.exclusive_iff.mp h.exclusive v, h.listed v⟩
  · intro h
    exact ⟨ObjectCollection.exclusive_iff.mpr fun v => (h v).1, fun v => (h v).2⟩

/-- An event that is about one virtual machine changes the partition of that one only. -/
theorem partition_of_frame {j' : BackupJob} (h : j.Partition) (v : ℤ)
    (hframe : ∀ w, w ≠ v → j.At w → j'.At w) : j'.Partition ↔ j'.At v := by
  rw [partition_iff]
  constructor
  · intro h'
    exact h' v
  · intro hv w
    by_cases hw : w = v
    · rw [hw]
      exact hv
    · exact hframe w hw (partition_iff.mp h w)

theorem partition_backupStarted (h : j.Partition) (v : ℤ) :
    (j.backupStarted v).Partition ↔ j.Listed v ∧ v ∉ j.updated ∧ v ∉ j.error := by
  rw [partition_of_frame h v]
  · simp [At, backupStarted, Listed]
    tauto
  · intro w hw hat
    simpa [At, backupStarted, Listed, hw] using hat

theorem partition_addError (h : j.Partition) (v : ℤ) :
    (j.addError v).Partition ↔ j.Listed v ∧ v ∉ j.updated ∧ v ∉ j.backingUp := by
  rw [partition_of_frame h v]
  · simp [At, addError, Listed]
    tauto
  · intro w hw hat
    simpa [At, addError, Listed, hw] using hat

theorem partition_backupFinished_true (h : j.Partition) (v : ℤ) :
    (j.backupFinished v true).Partition ↔ j.Listed v ∧ v ∉ j.outdated ∧ v ∉ j.error := by
  have hat := partition_iff.mp h v
  rw [partition_of_frame h v]
  · simp [At, backupFinished, Listed] at hat ⊢
    tauto
  · intro w hw hatw
    simpa [At, backupFinished, Listed, hw] using hatw

theorem partition_backupFinished_false (h : j.Partition) (v : ℤ) :
    (j.backupFinished v false).Partition ↔ j.Listed v ∧ v ∉ j.outdated ∧ v ∉ j.updated := by
  have hat := partition_iff.mp h v
  rw [partition_of_frame h v]
  · simp [At, backupFinished, Listed] at hat ⊢
    tauto
  · intro w hw hatw
    simpa [At, backupFinished, Listed, hw] using hatw

theorem partition_removeVm (h : j.Partition) (v : ℤ) :
    (j.removeVm v).Partition ↔ v ∉ j.updated ∧ v ∉ j.backingUp ∧ v ∉ j.error := by
  have hat := partition_iff.mp h v
  cases hvms : j.backupVms with
  | none =>
    -- Nothing is listed, so nothing is in the collections.
    rw [partition_of_frame h v]
    · simp [At, removeVm, Listed, hvms] at hat ⊢
      tauto
    · intro w hw hatw
      simpa [At, removeVm, Listed, hvms, hw] using hatw
  | some vms =>
    rw [partition_of_frame h v]
    · simp [At, removeVm, Listed, hvms] at hat ⊢
      tauto
    · intro w hw hatw
      simpa [At, removeVm, Listed, hvms, hw] using hatw

theorem partition_execute (h : j.Partition) : j.execute.2.Partition := by
  unfold execute
  split
  · exact h
  · rename_i hfree
    have hback : j.backingUp = ∅ := by
      rw [← Finset.card_eq_zero]
      omega
    have hout : j.outdated = ∅ := by
      rw [← Finset.card_eq_zero]
      omega
    rw [partition_iff]
    intro v
    cases hvms : j.backupVms with
    | none => simp [At, hback, hout]
    | some vms => simp [At, Listed, hback, hout]

theorem partition_cancel (h : j.Partition) : j.cancel.Partition := by
  rw [partition_iff] at h ⊢
  intro v
  have hat := h v
  simp [At, cancel, Listed] at hat ⊢
  tauto

theorem partition_retry (h : j.Partition) : j.retry.Partition := by
  rw [partition_iff] at h ⊢
  intro v
  have hat := h v
  simp [At, retry, Listed] at hat ⊢
  tauto

theorem partition_updateVms (h : j.Partition) (vms : List ℤ) (jobExists : ℤ → Bool)
    (pool : VmJobs) : (j.updateVms vms jobExists pool).2.2.Partition := by
  unfold updateVms
  dsimp only
  split
  · exact h
  · rw [partition_iff] at h ⊢
    intro v
    have hat := h v
    simp [At, Listed] at hat ⊢
    tauto

/-- **One event keeps the partition exactly when it is expected.** -/
theorem partition_apply_iff (h : j.Partition) (e : Event) :
    (j.apply e).Partition ↔ j.Expected e := by
  cases e with
  | execute => exact iff_of_true (partition_execute h) trivial
  | cancel => exact iff_of_true (partition_cancel h) trivial
  | retry => exact iff_of_true (partition_retry h) trivial
  | updateVms vms jobExists pool =>
    exact iff_of_true (partition_updateVms h vms jobExists pool) trivial
  | removeVm v => exact partition_removeVm h v
  | backupStarted v => exact partition_backupStarted h v
  | backupFinished v success =>
    cases success with
    | true => exact partition_backupFinished_true h v
    | false => exact partition_backupFinished_false h v
  | addError v => exact partition_addError h v

theorem partition_of_new (h : j.New) : j.Partition := by
  obtain ⟨hupd, hout, hback, herr⟩ := h
  rw [partition_iff]
  intro v
  simp [At, hupd, hout, hback, herr]

end Partition

/-- **The partition of a backup job.**  In every run of a new job whose reports are expected, each
virtual machine is in at most one collection and only the listed ones are in any; and there the next
event keeps this exactly when it is expected too. -/
theorem partition_of_expected {j₀ j : BackupJob} (hnew : j₀.New)
    (hrun : Transition.Reach step Expected j₀ j) :
    j.Partition ∧ ∀ e, (j.apply e).Partition ↔ j.Expected e := by
  have hinv : j.Partition := by
    refine hrun.inv (partition_of_new hnew) ?_
    intro s e t hs hexp hstep
    obtain rfl : s.apply e = t := Option.some.inj hstep
    exact (partition_apply_iff hs e).mpr hexp
  exact ⟨hinv, partition_apply_iff hinv⟩

/-- A new job with two virtual machines. -/
def twoVms : BackupJob := ⟨0, some [3, 7], ∅, ∅, ∅, ∅⟩

/-- Both machines are backed up, one with an error, and the job is retried. -/
def retriedRun : List Event :=
  [.execute, .backupStarted 3, .backupFinished 3 true, .addError 7, .retry]

instance (j : BackupJob) (e : Event) : Decidable (j.Expected e) :=
  match e with
  | .execute => isTrue trivial
  | .cancel => isTrue trivial
  | .retry => isTrue trivial
  | .updateVms _ _ _ => isTrue trivial
  | .removeVm v => inferInstanceAs (Decidable (v ∉ j.updated ∧ v ∉ j.backingUp ∧ v ∉ j.error))
  | .backupStarted v => inferInstanceAs (Decidable (j.Listed v ∧ v ∉ j.updated ∧ v ∉ j.error))
  | .backupFinished v true =>
    inferInstanceAs (Decidable (j.Listed v ∧ v ∉ j.outdated ∧ v ∉ j.error))
  | .backupFinished v false =>
    inferInstanceAs (Decidable (j.Listed v ∧ v ∉ j.outdated ∧ v ∉ j.updated))
  | .addError v => inferInstanceAs (Decidable (j.Listed v ∧ v ∉ j.updated ∧ v ∉ j.backingUp))

theorem partition_retriedRun :
    ∃ j, Transition.runChecked step Expected twoVms retriedRun = some j ∧ j.Partition := by
  refine ⟨_, rfl, (@partition_of_expected twoVms _ ⟨rfl, rfl, rfl, rfl⟩ ?_).1⟩
  exact Transition.reach_of_runChecked retriedRun rfl

/-- A job is cancelled during a backup and executed again; then the late report arrives. -/
def lateReport : List Event :=
  [.execute, .backupStarted 3, .cancel, .execute, .backupFinished 3 true]

/-- **A late report**: the machine is in `updated` and in `outdated`. -/
theorem not_partition_lateReport :
    twoVms.New ∧ ∃ j, Transition.Run step twoVms j ∧ 3 ∈ j.updated ∧ 3 ∈ j.outdated ∧
      ¬ j.Partition := by
  refine ⟨⟨rfl, rfl, rfl, rfl⟩, _, Transition.reach_of_runEvents (P := fun _ => True) lateReport
    (fun _ _ => trivial) rfl, by decide, by decide, ?_⟩
  intro h
  exact ((ObjectCollection.exclusive_iff.mp h.exclusive 3).1 (by decide)).1 (by decide)

end BackupJob
