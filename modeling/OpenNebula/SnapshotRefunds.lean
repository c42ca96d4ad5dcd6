/-
# What is given back for system snapshots

The handlers that drop the system snapshots of a virtual machine collect them in a template and give their
size back to the quotas later.  An outcome is `Exact` when it takes the size of what it drops from the usage
of the owner and the group of the virtual machine, and changes no other usage.
-/
import OpenNebula.RunningShares

namespace LifeCycle

/-! ## Sizes -/

/-- `VirtualMachine::get_snapshots_system_size`. -/
def snapshotsSize (snapshots : List (Option ℤ)) : ℤ := (snapshots.map fun s => s.getD 0).sum

/-- What a virtual machine has in `SYSTEM_DISK_SIZE` for its snapshots and for those of its disks. -/
def Vm.heldSize (vm : Vm) : ℤ := snapshotsSize vm.snapshots + vm.diskSnapshots

/-- What a handler drops: all of it when the virtual machine is done. -/
def droppedSize (vm : Vm) (o : Outcome) : ℤ :=
  if o.vm.state = .done ∧ vm.state ≠ .done then vm.heldSize else vm.heldSize - o.vm.heldSize

/-- The size of a template. -/
def Delta.size (d : Delta) : ℤ := snapshotsSize d.snapshots + d.disks

/-- Is this user or group one of the two? -/
def Owner.isOf (a : Owner) (uid gid : ℤ) : Prop := a = .user uid ∨ a = .group gid

instance (a : Owner) (uid gid : ℤ) : Decidable (a.isOf uid gid) :=
  inferInstanceAs (Decidable (_ ∨ _))

/-- What an effect takes from the usage of a user or a group. -/
def Effect.refund (a : Owner) : Effect → ℤ
  | .quotaDel uid gid d => if a.isOf uid gid then d.size else 0
  | .releaseAll uid gid _ snapshots disks =>
    if a.isOf uid gid then snapshotsSize snapshots + disks else 0
  | _ => 0

/-- What some effects take. -/
def refunds (a : Owner) (effects : List Effect) : ℤ := (effects.map (Effect.refund a)).sum

/-- **What is dropped goes back to the owner.**  The users and groups with quotas are all but `oneadmin`. -/
def Returned (vm : Vm) (o : Outcome) : Prop :=
  ∀ a : Owner, a.id ≠ 0 →
    refunds a o.effects = (if a.isOf vm.uid vm.gid then droppedSize vm o else 0) ∧
    (¬ a.isOf vm.uid vm.gid → ∀ amounts m, usageOf amounts o.effects a m = 0)

/-- The handlers that release something from the user that made the request. -/
def Trigger.forRequester : Trigger → Bool
  | .migrate _ _ | .delete _ => true
  | _ => false

namespace SnapshotQuota

/-! ## Effects -/

/-- The effect is about the quotas of this user and this group, if about any. -/
def Own (uid gid : ℤ) : Effect → Prop
  | .addCapacity _ | .delCapacity _ | .report _ _ _ => True
  | .chargeRunning u g | .releaseRunning u g | .releaseAll u g _ _ _ | .quotaDel u g _ => u = uid ∧ g = gid

/-- What an effect takes from its user. -/
def sizeOf : Effect → ℤ
  | .quotaDel _ _ d => d.size
  | .releaseAll _ _ _ snapshots disks => snapshotsSize snapshots + disks
  | _ => 0

/-- Effects of the owner that take nothing. -/
def Quiet (uid gid : ℤ) (effects : List Effect) : Prop := ∀ x ∈ effects, sizeOf x = 0 ∧ Own uid gid x

section Effects

variable {uid gid : ℤ} {a : Owner} {l l' : List Effect}

@[simp] theorem refunds_append : refunds a (l ++ l') = refunds a l + refunds a l' := by
  unfold refunds
  rw [List.map_append, List.sum_append]

/-- The effects of the owner, all together. -/
theorem refunds_of_own (h : ∀ x ∈ l, Own uid gid x) :
    refunds a l = if a.isOf uid gid then (l.map sizeOf).sum else 0 := by
  unfold refunds
  induction l with
  | nil => exact (ite_self 0).symm
  | cons x l ih =>
    have hx := h x List.mem_cons_self
    have hrefund : Effect.refund a x = if a.isOf uid gid then sizeOf x else 0 := by
      cases x with
      | quotaDel u g d =>
        obtain ⟨rfl, rfl⟩ : u = uid ∧ g = gid := hx
        rfl
      | releaseAll u g running snapshots disks =>
        obtain ⟨rfl, rfl⟩ : u = uid ∧ g = gid := hx
        rfl
      | _ => exact (ite_self 0).symm
    rw [List.map_cons, List.sum_cons, ih fun y hy => h y (List.mem_cons_of_mem x hy), hrefund,
      List.map_cons, List.sum_cons]
    split
    · rfl
    · exact add_zero 0

/-- Nobody else has a part of the running virtual machine. -/
theorem usageOf_of_own (h : ∀ x ∈ l, Own uid gid x) (ha : ¬ a.isOf uid gid)
    (amounts : RunningMetric → ℚ) (m : RunningMetric) : usageOf amounts l a m = 0 := by
  have hcharge : chargeTo uid gid amounts a m = 0 := by
    unfold chargeTo
    rw [if_neg fun hand => ha hand.2]
  induction l with
  | nil => rfl
  | cons x l ih =>
    have hx := h x List.mem_cons_self
    have hzero : x.onUsage amounts a m = 0 := by
      cases x with
      | chargeRunning u g =>
        obtain ⟨rfl, rfl⟩ : u = uid ∧ g = gid := hx
        exact hcharge
      | releaseRunning u g =>
        obtain ⟨rfl, rfl⟩ : u = uid ∧ g = gid := hx
        show -chargeTo u g amounts a m = 0
        rw [hcharge, neg_zero]
      | releaseAll u g running snapshots disks =>
        obtain ⟨rfl, rfl⟩ : u = uid ∧ g = gid := hx
        cases running
        · rfl
        · show -chargeTo u g amounts a m = 0
          rw [hcharge, neg_zero]
      | quotaDel u g d =>
        obtain ⟨rfl, rfl⟩ : u = uid ∧ g = gid := hx
        unfold Effect.onUsage
        dsimp only
        split
        · exact hcharge
        · rfl
      | _ => rfl
    rw [RunningQuota.usageOf_cons, Pi.add_apply, Pi.add_apply, hzero, zero_add]
    exact ih fun y hy => h y (List.mem_cons_of_mem x hy)

theorem quiet_nil : Quiet uid gid [] := fun _ hx => absurd hx List.not_mem_nil

theorem Quiet.cons {x : Effect} (hx : sizeOf x = 0) (hown : Own uid gid x) (h : Quiet uid gid l) :
    Quiet uid gid (x :: l) := by
  intro y hy
  rcases List.mem_cons.mp hy with rfl | hy
  · exact ⟨hx, hown⟩
  · exact h y hy

theorem Quiet.sum (h : Quiet uid gid l) : (l.map sizeOf).sum = 0 := by
  refine List.sum_eq_zero fun n hn => ?_
  obtain ⟨x, hx, rfl⟩ := List.mem_map.mp hn
  exact (h x hx).1

theorem quiet_ite {c : Prop} [Decidable c] {x : Effect} (hx : sizeOf x = 0) (hown : Own uid gid x) :
    Quiet uid gid (if c then [x] else []) := by
  split
  · exact Quiet.cons hx hown quiet_nil
  · exact quiet_nil

theorem quiet_releaseRunning (vm : Vm) :
    Quiet vm.uid vm.gid (if vm.isRunningQuota then [.releaseRunning vm.uid vm.gid] else []) := by
  split
  · exact Quiet.cons rfl ⟨rfl, rfl⟩ quiet_nil
  · exact quiet_nil

theorem quiet_report (vm : Vm) (success : Bool) : Quiet uid gid (vm.report success) := by
  unfold Vm.report
  split
  · exact quiet_nil
  · split
    · exact Quiet.cons rfl trivial quiet_nil
    · exact quiet_nil

/-- The size of a template, also when it is empty and nothing is released. -/
theorem sum_release (d : Delta) (uid gid : ℤ) : ((d.release uid gid).map sizeOf).sum = d.size := by
  unfold Delta.release
  split
  · rename_i hempty
    rw [hempty]
    rfl
  · exact add_zero _

theorem own_release (d : Delta) (uid gid : ℤ) : ∀ x ∈ d.release uid gid, Own uid gid x := by
  intro x hx
  unfold Delta.release at hx
  split at hx
  · exact absurd hx List.not_mem_nil
  · obtain rfl := List.mem_singleton.mp hx
    exact ⟨rfl, rfl⟩

theorem snapshotsSize_append (s s' : List (Option ℤ)) :
    snapshotsSize (s ++ s') = snapshotsSize s + snapshotsSize s' := by
  unfold snapshotsSize
  rw [List.map_append, List.sum_append]

end Effects

/-! ## Handlers that use the owner -/

/-- The handler gives back what it drops, to the owner, and so does the one that it queues. -/
structure Exact (vm : Vm) (o : Outcome) : Prop where
  total : (o.effects.map sizeOf).sum = droppedSize vm o
  own : ∀ x ∈ o.effects, Own vm.uid vm.gid x
  owner : o.vm.uid = vm.uid ∧ o.vm.gid = vm.gid
  queued : ∀ t ∈ o.queued, t.forRequester = false ∧ (o.vm.state = .done ↔ vm.state = .done)

section Exact

variable {vm vm' : Vm} {effects : List Effect} {o : Outcome} {f : Vm → Outcome} {keep : Text → Bool}

theorem Exact.returned (h : Exact vm o) : Returned vm o := by
  intro a _
  refine ⟨?_, fun ha amounts m => usageOf_of_own h.own ha amounts m⟩
  rw [refunds_of_own h.own, h.total]

theorem droppedSize_of_left (hstate : decide (o.vm.state = .done) = false) :
    droppedSize vm o = vm.heldSize - o.vm.heldSize := by
  unfold droppedSize
  rw [if_neg fun hand => of_decide_eq_false hstate hand.1]

theorem droppedSize_of_done (hdone : o.vm.state = .done) (hstate : vm.state ≠ .done) :
    droppedSize vm o = vm.heldSize := by
  unfold droppedSize
  rw [if_pos ⟨hdone, hstate⟩]

/-- Nothing is dropped. -/
theorem Exact.same (hsnapshots : vm'.snapshots = vm.snapshots)
    (hdisks : vm'.diskSnapshots = vm.diskSnapshots) (huid : vm'.uid = vm.uid) (hgid : vm'.gid = vm.gid)
    (hdone : vm'.state = .done → vm.state = .done) (hq : Quiet vm.uid vm.gid effects) :
    Exact vm ⟨vm', effects, none⟩ := by
  refine ⟨?_, fun x hx => (hq x hx).2, ⟨huid, hgid⟩, fun _ ht => absurd ht (Option.not_mem_none _)⟩
  unfold droppedSize Vm.heldSize
  dsimp only
  rw [if_neg fun hand => hand.2 (hdone hand.1), hsnapshots, hdisks, sub_self]
  exact hq.sum

/-- Nothing is dropped by a virtual machine that is not done afterwards. -/
theorem Exact.moves (hsnapshots : vm'.snapshots = vm.snapshots)
    (hdisks : vm'.diskSnapshots = vm.diskSnapshots) (huid : vm'.uid = vm.uid) (hgid : vm'.gid = vm.gid)
    (hstate : decide (vm'.state = .done) = false) (hq : Quiet vm.uid vm.gid effects) :
    Exact vm ⟨vm', effects, none⟩ :=
  Exact.same hsnapshots hdisks huid hgid (fun hdone => absurd hdone (of_decide_eq_false hstate)) hq

theorem Exact.ignore (vm : Vm) : Exact vm vm.ignore := Exact.same rfl rfl rfl rfl id quiet_nil

/-- A handler that uses the owner is queued. -/
theorem Exact.queuing (h : Exact vm ⟨vm', effects, none⟩) {t : Trigger} (ht : t.forRequester = false)
    (hdone : vm'.state = .done ↔ vm.state = .done) : Exact vm ⟨vm', effects, some t⟩ := by
  refine ⟨h.total, h.own, h.owner, fun t' ht' => ⟨?_, hdone⟩⟩
  rw [← Option.some.inj ht']
  exact ht

theorem Exact.queue (vm : Vm) {t : Trigger} (ht : t.forRequester = false) : Exact vm (vm.queue t) :=
  Exact.queuing (Exact.ignore vm) ht Iff.rfl

theorem Exact.append (h : Exact vm o) {l : List Effect} (hl : Quiet vm.uid vm.gid l) :
    Exact vm ⟨o.vm, o.effects ++ l, o.queued⟩ := by
  refine ⟨?_, fun x hx => ?_, h.owner, h.queued⟩
  · dsimp only
    rw [List.map_append, List.sum_append, hl.sum, add_zero]
    exact h.total
  · rcases List.mem_append.mp hx with hx | hx
    · exact h.own x hx
    · exact (hl x hx).2

theorem Exact.andThen (h : Exact vm o) (hdone : o.vm.state = .done ↔ vm.state = .done)
    (hf : Exact o.vm (f o.vm)) : Exact vm (o.andThen f) := by
  obtain ⟨huid, hgid⟩ := h.owner
  refine ⟨?_, fun x hx => ?_, ⟨hf.owner.1.trans huid, hf.owner.2.trans hgid⟩, fun t ht => ?_⟩
  · have htotal := h.total
    have htotal' := hf.total
    unfold Outcome.andThen
    dsimp only
    rw [List.map_append, List.sum_append, htotal, htotal']
    unfold droppedSize
    dsimp only
    have hne : o.vm.state ≠ .done ↔ vm.state ≠ .done := not_congr hdone
    rw [if_neg fun hand => hand.2 (hdone.mp hand.1)]
    simp only [hne]
    split
    · ring
    · ring
  · rcases List.mem_append.mp hx with hx | hx
    · exact h.own x hx
    · rw [← huid, ← hgid]
      exact hf.own x hx
  · exact ⟨(hf.queued t ht).1, (hf.queued t ht).2.trans hdone⟩

/-- What a virtual machine uses is released. -/
theorem exact_freeVmResources (hstate : vm.state ≠ .done) : Exact vm (freeVmResources vm) := by
  refine ⟨?_, fun x hx => ?_, ⟨rfl, rfl⟩, fun _ ht => absurd ht (Option.not_mem_none _)⟩
  · rw [droppedSize_of_done rfl hstate]
    exact add_zero _
  · obtain rfl := List.mem_singleton.mp hx
    exact ⟨rfl, rfl⟩

/-- The size of what is collected, or kept. -/
theorem snapshotsSize_ite (c : Bool) (snapshots : List (Option ℤ)) :
    snapshotsSize (if c then snapshots else []) = if c then snapshotsSize snapshots else 0 := by
  cases c <;> rfl

/-- The virtual machine without its snapshots. -/
theorem Exact.dropping (hf : ∀ snapshots, Exact { vm with snapshots := snapshots }
    (f { vm with snapshots := snapshots })) : Exact vm (droppingSnapshots keep vm f) := by
  obtain ⟨cid, heq⟩ := dropSnapshots_eq keep vm
  have hexact := hf (if keep vm.vmmMad then vm.snapshots else [])
  unfold droppingSnapshots
  rw [heq]
  refine ⟨?_, fun x hx => ?_, hexact.owner, hexact.queued⟩
  · have htotal := hexact.total
    dsimp only
    rw [List.map_append, List.sum_append, sum_release, htotal]
    unfold droppedSize Vm.heldSize Delta.size
    dsimp only
    cases keep vm.vmmMad
    · simp only [snapshotsSize, List.map_nil, List.sum_nil, if_false, Bool.false_eq_true]
      split <;> ring
    · simp only [snapshotsSize, List.map_nil, List.sum_nil, if_true]
      split <;> ring
  · rcases List.mem_append.mp hx with hx | hx
    · exact hexact.own x hx
    · exact own_release _ vm.uid vm.gid x hx

/-- What is dropped is collected and given back at once. -/
theorem Exact.collects {d : Delta} (hq : Quiet vm.uid vm.gid effects)
    (hsize : d.size = vm.heldSize - vm'.heldSize) (huid : vm'.uid = vm.uid) (hgid : vm'.gid = vm.gid)
    (hstate : decide (vm'.state = .done) = false) :
    Exact vm ⟨vm', effects ++ d.release vm.uid vm.gid, none⟩ := by
  refine ⟨?_, fun x hx => ?_, ⟨huid, hgid⟩, fun _ ht => absurd ht (Option.not_mem_none _)⟩
  · dsimp only
    rw [List.map_append, List.sum_append, hq.sum, sum_release, zero_add, hsize]
    exact (droppedSize_of_left (o := ⟨vm', effects ++ d.release vm.uid vm.gid, none⟩) hstate).symm
  · rcases List.mem_append.mp hx with hx | hx
    · exact (hq x hx).2
    · exact own_release _ vm.uid vm.gid x hx

end Exact

section Outcomes

variable (vm : Vm)

theorem exact_startPrologMigrate : Exact vm (startPrologMigrate vm) := by
  unfold startPrologMigrate
  exact Exact.same rfl rfl rfl rfl id (quiet_ite rfl trivial)

theorem exact_revertMigrateAfterFailure : Exact vm (revertMigrateAfterFailure vm) := by
  obtain ⟨history, previous, heq⟩ := Vm.cpPreviousHistory_frame { vm with lcm := .running }
  unfold revertMigrateAfterFailure
  rw [heq]
  exact Exact.same rfl rfl rfl rfl id (quiet_ite rfl trivial)

/-- Only the state of the life cycle and the records change. -/
theorem exact_lcm (lcm : LcmState) (history previous : Option Record) :
    Exact vm ⟨{ vm with lcm := lcm, history := history, previous := previous }, [], none⟩ :=
  Exact.same rfl rfl rfl rfl id quiet_nil

theorem exact_backToPrevious (lcm : LcmState) : Exact vm (backToPrevious vm lcm) := by
  obtain ⟨history, previous, heq⟩ := Vm.cpPreviousHistory_frame { vm with lcm := lcm }
  unfold backToPrevious
  dsimp only
  rw [heq]
  have hback : Exact vm ⟨{ vm with lcm := lcm, history := history, previous := previous },
      [.delCapacity vm.hid,
        .addCapacity (Vm.hid { vm with lcm := lcm, history := history, previous := previous })], none⟩ :=
    Exact.same rfl rfl rfl rfl id (Quiet.cons rfl trivial (Quiet.cons rfl trivial quiet_nil))
  exact hback.queuing rfl Iff.rfl

end Outcomes

end SnapshotQuota

end LifeCycle
