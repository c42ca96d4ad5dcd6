/-
# Update of the machines of a virtual network (`src/vnm/VirtualNetwork.cc`)

A virtual network keeps four collections of the virtual machines that use it: with its last version
(`updated`), with a previous one (`outdated`), with the update sent to the drivers (`updating`) and
with a failed update (`error`).  Interfaces are attached and detached, the network is changed
(`commit`), and the machines are updated one by one: the life cycle manager takes one out of
`outdated`, leaves the network, and records later how it went; the driver answers even later.

Neither the attachment nor the record looks at the other collections.  `Apart` is the condition on
these two steps under which each machine is in at most one collection (`partition_of_apart`).

Conventions of the embedding:

* `inFlight` is the machine that the life cycle manager has taken out of `outdated` and not recorded
  yet.  There is one at a time, since the requests of the manager are executed in order.
* `state` has the states that the update depends on.
-/
import OpenNebula.ObjectCollection
import OpenNebula.Transition

/-- `VirtualNetwork::VirtualNetworkState`. -/
inductive VirtualNetworkState where
  | init | ready | lockCreate | lockDelete | done | error | updateFailure
  deriving DecidableEq, Repr

/-- The update of a virtual network. -/
structure VirtualNetwork where
  state : VirtualNetworkState
  updated : ObjectCollection
  outdated : ObjectCollection
  updating : ObjectCollection
  error : ObjectCollection
  inFlight : Option ℤ

namespace VirtualNetwork

/-! ## Operations -/

/-- The end of `VirtualNetwork::nic_attribute`: a machine gets an interface. -/
def nicAttribute (n : VirtualNetwork) (vid : ℤ) : VirtualNetwork :=
  { n with updated := (n.updated.add vid).2 }

/-- `VirtualNetwork::commit`. -/
def commit (n : VirtualNetwork) (recover : Bool) : VirtualNetwork :=
  let n' :=
    if recover then n else { n with outdated := n.outdated ∪ n.updated, updated := ∅ }
  { n' with outdated := n'.outdated ∪ n'.updating ∪ n'.error, updating := ∅, error := ∅ }

/-- `VirtualNetwork::commit` for some machines. -/
def commitVms (n : VirtualNetwork) (vmIds : Finset ℤ) : VirtualNetwork :=
  { n with
    outdated := n.outdated ∪ vmIds
    updated := n.updated \ vmIds
    updating := n.updating \ vmIds
    error := n.error \ vmIds }

/-- A failure that is left behind. -/
def ready (n : VirtualNetwork) : VirtualNetwork :=
  if n.state = .updateFailure then { n with state := .ready } else n

/-- `VirtualNetwork::clear_update_vm`: the machine leaves the first collection that has it. -/
def clearUpdateVm (n : VirtualNetwork) (vmId : ℤ) : VirtualNetwork :=
  if (n.updated.del vmId).1 = 0 then { n with updated := (n.updated.del vmId).2 }
  else if (n.updating.del vmId).1 = 0 then { n with updating := (n.updating.del vmId).2 }
  else if (n.error.del vmId).1 = 0 then
    let n' := { n with error := (n.error.del vmId).2 }
    if n'.error.card = 0 then n'.ready else n'
  else { n with outdated := (n.outdated.del vmId).2 }

/-- How the life cycle manager finds a machine: it cannot be updated now, only its template changes,
the update is sent to the driver, or it is not there any more. -/
inductive Outcome where
  | isError | isTmpl | isUpdate | gone
  deriving DecidableEq, Repr

/-- The end of a turn of `LifeCycleManager::trigger_updatevnet`. -/
def record (n : VirtualNetwork) (vmId : ℤ) : Outcome → VirtualNetwork
  | .isError => { n with error := (n.error.add vmId).2, inFlight := none }
  | .isTmpl => { n with updated := (n.updated.add vmId).2, inFlight := none }
  | .isUpdate => { n with updating := (n.updating.add vmId).2, inFlight := none }
  | .gone => { n with inFlight := none }

/-- The answer of the driver (`VirtualMachineManager::_updatenic`). -/
def answer (n : VirtualNetwork) (vmId : ℤ) (success : Bool) : VirtualNetwork :=
  if vmId ∈ n.updating then
    let n' := { n with updating := (n.updating.del vmId).2 }
    if success then { n' with updated := (n'.updated.add vmId).2 }
    else { n' with error := (n'.error.add vmId).2, state := .updateFailure }
  else n

/-- `DispatchManager::recover_nic`. -/
def recoverNic (n : VirtualNetwork) (vmId : ℤ) : VirtualNetwork :=
  let n' := n.clearUpdateVm vmId
  { n' with updating := (n'.updating.add vmId).2 }

/-- The recovery of a failed update with success: what is outdated counts as updated. -/
def recoverSuccess (n : VirtualNetwork) : VirtualNetwork :=
  { n with state := .ready, updated := n.updated ∪ n.outdated, outdated := ∅ }

/-! ## Runs -/

/-- Requests, turns of the life cycle manager and answers of the driver. -/
inductive Event where
  | attach (vmId : ℤ)
  | detach (vmId : ℤ)
  | commit (recover : Bool)
  | commitVms (vmIds : Finset ℤ)
  | takeOutdated
  | record (outcome : Outcome)
  | answer (vmId : ℤ) (success : Bool)
  | recoverNic (vmId : ℤ)
  | recoverSuccess

/-- The network after an event, if it can happen. -/
def step (n : VirtualNetwork) : Event → Option VirtualNetwork
  | .attach vmId => some (n.nicAttribute vmId)
  | .detach vmId => some (n.clearUpdateVm vmId)
  | .commit recover => some (n.commit recover).ready
  | .commitVms vmIds => some (n.commitVms vmIds).ready
  | .takeOutdated =>
    match n.inFlight, n.outdated.pop with
    | none, some (vmId, rest) => some { n with outdated := rest, inFlight := some vmId }
    | _, _ => none
  | .record outcome => n.inFlight.map fun vmId => n.record vmId outcome
  | .answer vmId success => some (n.answer vmId success)
  | .recoverNic vmId => some (n.recoverNic vmId)
  | .recoverSuccess => if n.state = .updateFailure then some n.recoverSuccess else none

/-- A network without machines. -/
def New (n : VirtualNetwork) : Prop :=
  n.updated = ∅ ∧ n.outdated = ∅ ∧ n.updating = ∅ ∧ n.error = ∅ ∧ n.inFlight = none

/-- Each machine is in at most one collection. -/
def Partition (n : VirtualNetwork) : Prop :=
  ObjectCollection.Exclusive n.updated n.outdated n.updating n.error

/-- The machine that is recorded is not in another collection. -/
def RecordApart (n : VirtualNetwork) (v : ℤ) : Outcome → Prop
  | .isError => v ∉ n.updated ∧ v ∉ n.outdated ∧ v ∉ n.updating
  | .isTmpl => v ∉ n.outdated ∧ v ∉ n.updating ∧ v ∉ n.error
  | .isUpdate => v ∉ n.updated ∧ v ∉ n.outdated ∧ v ∉ n.error
  | .gone => True

/-- The machine that is attached or recorded is not in another collection. -/
def Apart (n : VirtualNetwork) : Event → Prop
  | .attach v => v ∉ n.outdated ∧ v ∉ n.updating ∧ v ∉ n.error
  | .record outcome => ∀ v ∈ n.inFlight, n.RecordApart v outcome
  | _ => True

/-! ## The partition -/

section Partition

variable {n : VirtualNetwork}

/-- The partition of one machine. -/
def At (n : VirtualNetwork) (v : ℤ) : Prop :=
  (v ∈ n.updated → v ∉ n.outdated ∧ v ∉ n.updating ∧ v ∉ n.error) ∧
    (v ∈ n.outdated → v ∉ n.updating ∧ v ∉ n.error) ∧ (v ∈ n.updating → v ∉ n.error)

theorem partition_iff : n.Partition ↔ ∀ v, n.At v := ObjectCollection.exclusive_iff

/-- A step about one machine changes the partition of that one only. -/
theorem partition_of_frame {n' : VirtualNetwork} (h : n.Partition) (v : ℤ)
    (hframe : ∀ w, w ≠ v → n.At w → n'.At w) : n'.Partition ↔ n'.At v := by
  rw [partition_iff]
  constructor
  · intro h'
    exact h' v
  · intro hv w
    by_cases hw : w = v
    · rw [hw]
      exact hv
    · exact hframe w hw (partition_iff.mp h w)

theorem partition_attach (h : n.Partition) (v : ℤ) :
    (n.nicAttribute v).Partition ↔ v ∉ n.outdated ∧ v ∉ n.updating ∧ v ∉ n.error := by
  have hat := partition_iff.mp h v
  rw [partition_of_frame h v]
  · simp only [At, nicAttribute, ObjectCollection.mem_add, true_or, true_implies] at hat ⊢
    tauto
  · intro w hw hatw
    simpa [At, nicAttribute, hw] using hatw

theorem partition_record (h : n.Partition) (v : ℤ) (outcome : Outcome) :
    (n.record v outcome).Partition ↔ n.RecordApart v outcome := by
  have hat := partition_iff.mp h v
  cases outcome with
  | isError =>
    rw [partition_of_frame h v]
    · simp only [At, record, RecordApart, ObjectCollection.mem_add, true_or] at hat ⊢
      tauto
    · intro w hw hatw
      simpa [At, record, hw] using hatw
  | isTmpl => exact partition_attach h v
  | isUpdate =>
    rw [partition_of_frame h v]
    · simp only [At, record, RecordApart, ObjectCollection.mem_add, true_or, true_implies] at hat ⊢
      tauto
    · intro w hw hatw
      simpa [At, record, hw] using hatw
  | gone => exact iff_of_true h trivial

/-- Leaving a failure behind keeps the collections. -/
theorem ready_eq (n : VirtualNetwork) : ∃ state, n.ready = { n with state := state } := by
  unfold ready
  split
  · exact ⟨.ready, rfl⟩
  · exact ⟨n.state, rfl⟩

theorem partition_ready (h : n.Partition) : n.ready.Partition := by
  obtain ⟨state, heq⟩ := n.ready_eq
  rw [heq]
  exact h

theorem partition_commit (h : n.Partition) (recover : Bool) : (n.commit recover).Partition := by
  rw [partition_iff] at h ⊢
  intro v
  have hat := h v
  cases recover with
  | true =>
    simp [At, commit] at hat ⊢
    tauto
  | false => simp [At, commit]

theorem partition_commitVms (h : n.Partition) (vmIds : Finset ℤ) :
    (n.commitVms vmIds).Partition := by
  rw [partition_iff] at h ⊢
  intro v
  have hat := h v
  simp only [At, commitVms, Finset.mem_union, Finset.mem_sdiff] at hat ⊢
  tauto

theorem partition_recoverSuccess (h : n.Partition) : n.recoverSuccess.Partition := by
  rw [partition_iff] at h ⊢
  intro v
  have hat := h v
  simp [At, recoverSuccess] at hat ⊢
  tauto

/-- With the partition, the machine leaves all the collections. -/
theorem clearUpdateVm_spec (h : n.Partition) (v : ℤ) :
    (n.clearUpdateVm v).updated = n.updated.erase v ∧
      (n.clearUpdateVm v).outdated = n.outdated.erase v ∧
      (n.clearUpdateVm v).updating = n.updating.erase v ∧
      (n.clearUpdateVm v).error = n.error.erase v := by
  obtain ⟨hupd, hout, hing⟩ := partition_iff.mp h v
  have hkeep : ∀ {c : ObjectCollection}, v ∉ c → c = c.erase v :=
    fun hv => (Finset.erase_eq_of_notMem hv).symm
  unfold clearUpdateVm
  simp only [ObjectCollection.del_rc_eq_zero]
  by_cases h1 : v ∈ n.updated
  · obtain ⟨hn2, hn3, hn4⟩ := hupd h1
    rw [if_pos h1]
    exact ⟨rfl, hkeep hn2, hkeep hn3, hkeep hn4⟩
  · rw [if_neg h1]
    by_cases h2 : v ∈ n.updating
    · have hn2 : v ∉ n.outdated := fun hv => (hout hv).1 h2
      rw [if_pos h2]
      exact ⟨hkeep h1, hkeep hn2, rfl, hkeep (hing h2)⟩
    · rw [if_neg h2]
      by_cases h3 : v ∈ n.error
      · have hn2 : v ∉ n.outdated := fun hv => (hout hv).2 h3
        rw [if_pos h3]
        split
        · obtain ⟨state, heq⟩ := ready_eq { n with error := (n.error.del v).2 }
          rw [heq]
          exact ⟨hkeep h1, hkeep hn2, hkeep h2, rfl⟩
        · exact ⟨hkeep h1, hkeep hn2, hkeep h2, rfl⟩
      · rw [if_neg h3]
        exact ⟨hkeep h1, rfl, hkeep h2, hkeep h3⟩

theorem partition_clearUpdateVm (h : n.Partition) (v : ℤ) : (n.clearUpdateVm v).Partition := by
  obtain ⟨h1, h2, h3, h4⟩ := clearUpdateVm_spec h v
  rw [partition_iff] at h ⊢
  intro w
  have hat := h w
  simp only [At, h1, h2, h3, h4, Finset.mem_erase] at hat ⊢
  tauto

theorem partition_recoverNic (h : n.Partition) (v : ℤ) : (n.recoverNic v).Partition := by
  obtain ⟨h1, h2, -, h4⟩ := clearUpdateVm_spec h v
  have hclear := partition_clearUpdateVm h v
  refine (partition_record hclear v .isUpdate).mpr ⟨?_, ?_, ?_⟩
  · rw [h1]
    exact Finset.notMem_erase v n.updated
  · rw [h2]
    exact Finset.notMem_erase v n.outdated
  · rw [h4]
    exact Finset.notMem_erase v n.error

theorem partition_answer (h : n.Partition) (v : ℤ) (success : Bool) :
    (n.answer v success).Partition := by
  unfold answer
  split
  · rename_i hv
    obtain ⟨hupd, hout, hing⟩ := partition_iff.mp h v
    have hdel : Partition { n with updating := (n.updating.del v).2 } := by
      rw [partition_iff] at h ⊢
      intro w
      have hat := h w
      simp only [At, ObjectCollection.mem_del] at hat ⊢
      tauto
    have hn1 : v ∉ n.updated := fun h1 => (hupd h1).2.1 hv
    have hn2 : v ∉ n.outdated := fun h2 => (hout h2).1 hv
    have hn3 : v ∉ (n.updating.del v).2 := Finset.notMem_erase v n.updating
    cases success with
    | true => exact (partition_attach hdel v).mpr ⟨hn2, hn3, hing hv⟩
    | false => exact (partition_record hdel v .isError).mpr ⟨hn1, hn2, hn3⟩
  · exact h

/-- **One event keeps the partition exactly when it meets the condition.** -/
theorem partition_step_iff (h : n.Partition) {e : Event} {n' : VirtualNetwork}
    (hstep : n.step e = some n') : n'.Partition ↔ n.Apart e := by
  cases e with
  | attach v =>
    obtain rfl := Option.some.inj hstep
    exact partition_attach h v
  | detach v =>
    obtain rfl := Option.some.inj hstep
    exact iff_of_true (partition_clearUpdateVm h v) trivial
  | commit recover =>
    obtain rfl := Option.some.inj hstep
    exact iff_of_true (partition_ready (partition_commit h recover)) trivial
  | commitVms vmIds =>
    obtain rfl := Option.some.inj hstep
    exact iff_of_true (partition_ready (partition_commitVms h vmIds)) trivial
  | takeOutdated =>
    simp only [step] at hstep
    split at hstep
    · rename_i v rest hflight hpop
      obtain rfl := Option.some.inj hstep
      obtain ⟨-, rfl⟩ := ObjectCollection.pop_eq_some hpop
      refine iff_of_true ?_ trivial
      rw [partition_iff] at h ⊢
      intro w
      have hat := h w
      simp only [At, Finset.mem_erase] at hat ⊢
      tauto
    · simp at hstep
  | record outcome =>
    obtain ⟨v, hv, rfl⟩ := Option.map_eq_some_iff.mp hstep
    rw [partition_record h v outcome]
    constructor
    · intro hap w hw
      obtain rfl : v = w := by
        rw [hv] at hw
        exact Option.mem_some_iff.mp hw
      exact hap
    · intro hap
      exact hap v hv
  | answer v success =>
    obtain rfl := Option.some.inj hstep
    exact iff_of_true (partition_answer h v success) trivial
  | recoverNic v =>
    obtain rfl := Option.some.inj hstep
    exact iff_of_true (partition_recoverNic h v) trivial
  | recoverSuccess =>
    simp only [step] at hstep
    split at hstep
    · obtain rfl := Option.some.inj hstep
      exact iff_of_true (partition_recoverSuccess h) trivial
    · simp at hstep

theorem partition_of_new (h : n.New) : n.Partition := by
  obtain ⟨hupd, hout, hing, herr, -⟩ := h
  rw [partition_iff]
  intro v
  simp [At, hupd, hout, hing, herr]

end Partition

/-- **The partition of the machines of a network.**  In every run of a new network in which each
machine that is attached or recorded is not in another collection at that moment, each machine is in
at most one collection; and there the next event keeps this exactly when it meets the condition. -/
theorem partition_of_apart {n₀ n : VirtualNetwork} (hnew : n₀.New)
    (hrun : Transition.Reach step Apart n₀ n) :
    n.Partition ∧ ∀ e n', n.step e = some n' → (n'.Partition ↔ n.Apart e) := by
  have hinv : n.Partition := by
    refine hrun.inv (partition_of_new hnew) ?_
    intro s e t hs hap hstep
    exact (partition_step_iff hs hstep).mpr hap
  exact ⟨hinv, fun e n' hstep => partition_step_iff hinv hstep⟩

instance (n : VirtualNetwork) (v : ℤ) (outcome : Outcome) : Decidable (n.RecordApart v outcome) :=
  match outcome with
  | .isError => inferInstanceAs (Decidable (v ∉ n.updated ∧ v ∉ n.outdated ∧ v ∉ n.updating))
  | .isTmpl => inferInstanceAs (Decidable (v ∉ n.outdated ∧ v ∉ n.updating ∧ v ∉ n.error))
  | .isUpdate => inferInstanceAs (Decidable (v ∉ n.updated ∧ v ∉ n.outdated ∧ v ∉ n.error))
  | .gone => isTrue trivial

instance (n : VirtualNetwork) (e : Event) : Decidable (n.Apart e) :=
  match e with
  | .attach v => inferInstanceAs (Decidable (v ∉ n.outdated ∧ v ∉ n.updating ∧ v ∉ n.error))
  | .record outcome => inferInstanceAs (Decidable (∀ v ∈ n.inFlight, n.RecordApart v outcome))
  | .detach _ | .commit _ | .commitVms _ | .takeOutdated | .answer _ _ | .recoverNic _
  | .recoverSuccess => isTrue trivial

/-- A network without machines. -/
def emptyNet : VirtualNetwork := ⟨.ready, ∅, ∅, ∅, ∅, none⟩

/-- Two machines are attached, the network changes, and one machine is updated. -/
def updatedRun : List Event :=
  [.attach 3, .attach 7, .commit false, .takeOutdated, .record .isUpdate, .answer 3 true]

theorem partition_updatedRun :
    ∃ n, Transition.runChecked step Apart emptyNet updatedRun = some n ∧ n.Partition := by
  refine ⟨_, rfl, (@partition_of_apart emptyNet _ ⟨rfl, rfl, rfl, rfl, rfl⟩ ?_).1⟩
  exact Transition.reach_of_runChecked updatedRun rfl

/-- A machine gets a second interface after the network has changed. -/
def secondNic : List Event := [.attach 3, .commit false, .attach 3]

/-- **A second interface**: the machine is in `updated` and in `outdated`. -/
theorem not_partition_secondNic :
    emptyNet.New ∧ ∃ n, Transition.Run step emptyNet n ∧ 3 ∈ n.updated ∧ 3 ∈ n.outdated ∧
      ¬ n.Partition := by
  refine ⟨⟨rfl, rfl, rfl, rfl, rfl⟩, _, Transition.reach_of_runEvents (P := fun _ => True) secondNic
    (fun _ _ => trivial) rfl, by decide, by decide, ?_⟩
  intro h
  exact ((ObjectCollection.exclusive_iff.mp h 3).1 (by decide)).1 (by decide)

end VirtualNetwork
