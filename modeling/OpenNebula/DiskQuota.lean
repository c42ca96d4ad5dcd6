/-
# The quotas of the snapshots of a disk (`src/vm/VirtualMachineDisk.cc`)

The size of the snapshots of a disk is cached in `DISK_SNAPSHOT_TOTAL_SIZE`.  A snapshot that is deleted,
and a revert, write what the disk gives back in a template for the datastore quotas and in one for the
quotas of the virtual machine; `trigger_disk_snapshot_success` calls the functions and takes the
templates from the quotas.

In the mode `LINEAR` a revert also deletes the younger snapshots (`delete_younger_snapshots`).  It
computes the size for the template of the virtual machine in `update_size` and writes `ssize` there, and
the size for the datastore template goes through an `int`.  `charge_exact_iff` says when the templates have what
the disk loses.

Conventions of the embedding:

* A size that is not a number is `none`.  The sums of sizes do not overflow 64 bits.
* A number is written as text in a template and read from it.  A number that does not fit an `int` is
  read as the nearest one that does, and the assignment of a `long long` to an `int` takes it modulo 2^32.
* `TYPE` is always `FS` in the template of the virtual machine; it is the list of the sizes of its disks.
* The two flags of the caller have any value before the functions set them.
-/
import OpenNebula.Quota
import OpenNebula.SnapshotSizes

open TextNumber

namespace DiskQuota

/-! ## Numbers -/

/-- A `long long` assigned to an `int`. -/
def toInt (x : ℤ) : ℤ := x.bmod (2 ^ 32)

/-- A number read from a text to an `int`. -/
def readInt (x : ℤ) : ℤ := max (-2 ^ 31) (min x (2 ^ 31 - 1))

/-- When a sum is right although its first part was read to an `int` and the sum is one. -/
theorem toInt_readInt_add (a b : ℤ) :
    toInt (readInt a + b) = a + b ↔ IsInt (a + b) ∧ (2 ^ 32 : ℤ) ∣ a - readInt a := by
  have hlow := @Int.le_bmod (readInt a + b) (2 ^ 32) (by norm_num)
  have hhigh := @Int.bmod_lt (readInt a + b) (2 ^ 32) (by norm_num)
  have hdvd : (2 ^ 32 : ℤ) ∣ toInt (readInt a + b) - (readInt a + b) := Int.dvd_bmod_sub_self
  change -((2 ^ 32 : ℕ) / 2 : ℤ) ≤ toInt (readInt a + b) at hlow
  change toInt (readInt a + b) < (((2 ^ 32 : ℕ) : ℤ) + 1) / 2 at hhigh
  generalize toInt (readInt a + b) = t at *
  generalize readInt a = r at *
  unfold IsInt
  push_cast at hlow hhigh
  constructor
  · rintro rfl
    refine ⟨⟨by omega, by omega⟩, ?_⟩
    have hsub : a + b - (r + b) = a - r := by omega
    rwa [hsub] at hdvd
  · rintro ⟨⟨hlow', hhigh'⟩, hdvd'⟩
    omega

/-! ## The disk -/

/-- What the functions read and change of a `VirtualMachineDisk`, besides what the quotas read. -/
structure Disk extends QuotaDisk where
  readonly : Bool
  persistent : Bool
  datastoreId : Text
  allowOrphans : AllowOrphansMode
  snapshots : Option Snapshots

/-- The templates and the flags of the caller. -/
structure Charges where
  ds : DatastoreDeltas
  vm : List ℤ
  imgOwner : Bool
  vmOwner : Bool
  deriving DecidableEq, Repr

/-- `SIZE` of the `DISK` in the template of the virtual machine, or 0. -/
def Charges.vmLeft (q : Charges) : ℤ := q.vm.headD 0

/-- The templates when the caller starts. -/
def Charges.start (imgOwner vmOwner : Bool) : Charges := ⟨.empty, [], imgOwner, vmOwner⟩

namespace Disk

/-- `VirtualMachineDisk::create_snapshot`: the identifier of the snapshot and the disk. -/
def createSnapshot (d : Disk) (name : String) (date : ℤ) : Except String (ℤ × Disk) :=
  if d.isVolatile then .error "Cannot make snapshots on volatile disks"
  else
    match d.size with
    | none => .error "Wrong size in disk"
    | some sizeMb =>
      if d.readonly then .error "Cannot make snapshots on readonly disks"
      else
        match d.snapshots with
        | none =>
          let r := (Snapshots.new d.allowOrphans).createSnapshot name sizeMb date
          if r.1 = -1 then .ok (-1, d)
          else .ok (r.1, { d with snapshots := some r.2, diskSnapshotTotalSize := some sizeMb })
        | some s =>
          let r := s.createSnapshot name sizeMb date
          let d' := { d with snapshots := some r.2 }
          if r.1 = -1 then .ok (-1, d')
          else .ok (r.1, { d' with diskSnapshotTotalSize := some r.2.totalSize })

/-- `VirtualMachineDisk::revert_snapshot`. -/
def revertSnapshot (d : Disk) (snapId : ℤ) (revert : Bool) : Disk :=
  { d with snapshots := d.snapshots.map fun s => (s.activeSnapshot snapId revert).2 }

/-- `VirtualMachineDisk::resize_quotas`. -/
def resizeQuotas (d : Disk) (deltaSize : ℤ) (q : Charges) : Charges :=
  let tm := d.getTmTarget
  let vmOwner := !d.isVolatile && tm = "SELF".toList
  let imgOwner := !d.isVolatile && (d.persistent || tm = "NONE".toList)
  { ds := if vmOwner || imgOwner then q.ds.add d.datastoreId deltaSize else q.ds
    vm := if d.isVolatile || tm = "SYSTEM".toList then q.vm ++ [deltaSize] else q.vm
    imgOwner, vmOwner }

/-- `VirtualMachineDisk::revert_snapshot_quotas`. -/
def revertSnapshotQuotas (d : Disk) (snapId : ℤ) (q : Charges) : Disk × Charges :=
  match d.snapshots with
  | none => (d, q)
  | some s =>
    match d.size with
    | none => (d, q)
    | some diskSize =>
      let snapSize := s.snapshotSize snapId
      if diskSize ≠ snapSize then
        ({ d with size := some snapSize }, d.resizeQuotas (diskSize - snapSize) q)
      else (d, q)

/-- `VirtualMachineDisk::delete_snapshot`. -/
def deleteSnapshot (d : Disk) (snapId : ℤ) (q : Charges) : Disk × Charges :=
  match d.snapshots with
  | none => (d, { q with imgOwner := false, vmOwner := false })
  | some s =>
    let ssize := s.snapshotSize snapId
    let s' := s.deleteSnapshot snapId
    let tmTarget := d.getTmTarget
    let vmOwner : Bool := tmTarget = "SELF".toList
    let imgOwner : Bool := d.persistent || tmTarget = "NONE".toList
    ({ d with snapshots := some s', diskSnapshotTotalSize := some s'.totalSize },
      { ds := if imgOwner || vmOwner then q.ds.add d.datastoreId ssize else q.ds
        vm := if tmTarget = "SYSTEM".toList then q.vm ++ [ssize] else q.vm
        imgOwner, vmOwner })

/-- `VirtualMachineDisk::delete_younger_snapshots`. -/
def deleteYoungerSnapshots (d : Disk) (snapId : ℤ) (q : Charges) : Disk × Charges :=
  match d.snapshots with
  | none => (d, { q with imgOwner := false, vmOwner := false })
  | some s =>
    let r := (s.getYoungerSnapshots snapId).foldl Snapshots.dropSnapshot (0, s)
    let ssize := r.1
    let tmTarget := d.getTmTarget
    let vmOwner : Bool := tmTarget = "SELF".toList
    let imgOwner : Bool := d.persistent || tmTarget = "NONE".toList
    let updateSize := toInt (readInt q.ds.sizeLeft + ssize)
    ({ d with snapshots := some r.2, diskSnapshotTotalSize := some r.2.totalSize },
      { ds := if imgOwner || vmOwner then q.ds.replace d.datastoreId updateSize else q.ds
        -- The first disk of the template gets `ssize`, and the `update_size` of this branch is not used.
        vm := if tmTarget = "SYSTEM".toList then ssize :: q.vm.tail else q.vm
        imgOwner, vmOwner })

/-! ## The end of an operation -/

/-- The operations on the snapshots that end in a charge. -/
inductive Ended where
  | deleted (snapId : ℤ)
  | reverted (snapId : ℤ)

/-- `LifeCycleManager::trigger_disk_snapshot_success`: the disk, and what is taken from the quotas. -/
def triggerDiskSnapshotSuccess (d : Disk) (q : Charges) : Ended → Disk × Charges
  | .deleted snapId => d.deleteSnapshot snapId q
  | .reverted snapId =>
    let r := d.revertSnapshotQuotas snapId q
    let d' := r.1.revertSnapshot snapId true
    if d.allowOrphans = .linear then d'.deleteYoungerSnapshots snapId r.2 else (d', r.2)

/-- What happens to a disk: a snapshot, which is made active when the driver has made it, a new size, or
the end of an operation. -/
inductive Op where
  | create (name : String) (date : ℤ)
  | created (snapId : ℤ)
  | resize (size : ℤ)
  | ended (e : Ended)

/-- The disk after one of them. -/
def step (d : Disk) : Op → Option Disk
  | .create name date => (d.createSnapshot name date).toOption.map Prod.snd
  | .created snapId => some (d.revertSnapshot snapId false)
  | .resize size => some { d with size := some size }
  | .ended e => some (d.triggerDiskSnapshotSuccess (.start false false) e).1

/-- The snapshots of the disk, if it has some: their identifiers are unique, the cached size is the sum
of theirs, the disk has a size and is not a volatile one. -/
def Cached (d : Disk) : Prop :=
  ∀ s ∈ d.snapshots, s.Marked ∧ d.diskSnapshotTotalSize = some s.totalSize ∧ d.size.isSome ∧ d.isVolatile = false

/-- **The templates have what the disk loses.** -/
def Exact (d : Disk) (imgOwner vmOwner : Bool) (e : Ended) : Prop :=
  let r := d.triggerDiskSnapshotSuccess (.start imgOwner vmOwner) e
  r.2.vmLeft = d.systemDsSize - r.1.systemDsSize ∧
    (r.2.vmOwner = true → r.2.ds.sizeLeft = d.imageDsSize - r.1.imageDsSize)

/-- The size of the snapshots that are younger than one of them. -/
def youngerSize (s : Snapshots) (snapId : ℤ) : ℤ :=
  ((s.getYoungerSnapshots snapId).map s.snapshotSize).sum

/-- When a revert in the mode `LINEAR` is charged right: on the system datastore the disk has the size of
the snapshot, and on the datastore of the image the sum fits an `int`, and so does its first part, or the
number that is read in its place is the same modulo 2^32. -/
def Charged (d : Disk) : Ended → Prop
  | .deleted _ => True
  | .reverted snapId =>
    d.allowOrphans = .linear → ∀ s ∈ d.snapshots, ∀ size ∈ d.size,
      (d.getTmTarget = "SYSTEM".toList → size = s.snapshotSize snapId) ∧
      (d.getTmTarget = "SELF".toList →
        IsInt (size - s.snapshotSize snapId + youngerSize s snapId) ∧
        (2 ^ 32 : ℤ) ∣ size - s.snapshotSize snapId - readInt (size - s.snapshotSize snapId))

/-! ## Sizes -/

section Sizes

variable {d : Disk} {z t : ℤ}

theorem systemDsSize_eq (hsize : d.size = some z) (htotal : d.diskSnapshotTotalSize = some t)
    (hvolatile : d.isVolatile = false) :
    d.systemDsSize = if d.getTmTarget = "SYSTEM".toList then z + t else 0 := by
  rw [QuotaDisk.systemDsSize, hsize]
  dsimp only
  rw [htotal, hvolatile, Bool.false_or, Option.getD_some]
  simp only [decide_eq_true_eq]

theorem imageDsSize_eq (hsize : d.size = some z) (htotal : d.diskSnapshotTotalSize = some t) :
    d.imageDsSize = if d.getTmTarget = "SELF".toList then z + t else 0 := by
  rw [QuotaDisk.imageDsSize, hsize]
  dsimp only
  rw [htotal, Option.getD_some]
  exact ite_not _ _ _

/-- The target does not depend on the size. -/
theorem getTmTarget_resized (d : QuotaDisk) (size : Option ℤ) :
    ({ d with size } : QuotaDisk).getTmTarget = d.getTmTarget := rfl

/-- What a disk loses when it gets another size and other snapshots. -/
theorem lost_eq (hsize : d.size = some z) (htotal : d.diskSnapshotTotalSize = some t)
    (hvolatile : d.isVolatile = false) (z' t' : ℤ) (s' : Option Snapshots) {d' : Disk}
    (hd' : d' = { d with size := some z', diskSnapshotTotalSize := some t', snapshots := s' }) :
    d.systemDsSize - d'.systemDsSize =
        (if d.getTmTarget = "SYSTEM".toList then z + t - (z' + t') else 0) ∧
      d.imageDsSize - d'.imageDsSize = if d.getTmTarget = "SELF".toList then z + t - (z' + t') else 0 := by
  have htm : d'.getTmTarget = d.getTmTarget := by
    rw [hd']
    rfl
  have hsize' : d'.size = some z' := by rw [hd']
  have htotal' : d'.diskSnapshotTotalSize = some t' := by rw [hd']
  have hvolatile' : d'.isVolatile = false := by
    rw [hd', ← hvolatile]
    rfl
  rw [systemDsSize_eq hsize htotal hvolatile, systemDsSize_eq hsize' htotal' hvolatile',
    imageDsSize_eq hsize htotal, imageDsSize_eq hsize' htotal', htm]
  constructor
  · split_ifs
    · rfl
    · rfl
  · split_ifs
    · rfl
    · rfl

/-- Nothing is lost and nothing is charged without snapshots. -/
theorem trigger_of_none (hnone : d.snapshots = none) (q : Charges) (e : Ended) :
    (d.triggerDiskSnapshotSuccess q e).1 = d ∧ (d.triggerDiskSnapshotSuccess q e).2.ds = q.ds ∧
      (d.triggerDiskSnapshotSuccess q e).2.vm = q.vm := by
  have hsame : d.revertSnapshotQuotas = fun _ q => (d, q) := by
    funext snapId q
    rw [revertSnapshotQuotas, hnone]
  have hrevert : ∀ snapId revert, d.revertSnapshot snapId revert = d := by
    intro snapId revert
    rw [revertSnapshot, hnone, Option.map_none, ← hnone]
  cases e with
  | deleted snapId =>
    rw [triggerDiskSnapshotSuccess, deleteSnapshot, hnone]
    exact ⟨rfl, rfl, rfl⟩
  | reverted snapId =>
    rw [triggerDiskSnapshotSuccess, hsame]
    dsimp only
    rw [hrevert, deleteYoungerSnapshots, hnone]
    split_ifs <;> exact ⟨rfl, rfl, rfl⟩

/-- What `revert_snapshot_quotas` does to a disk with snapshots. -/
theorem revertSnapshotQuotas_eq {s : Snapshots} (hsnaps : d.snapshots = some s) (hsize : d.size = some z)
    (snapId : ℤ) (q : Charges) :
    d.revertSnapshotQuotas snapId q =
      ({ d with size := some (s.snapshotSize snapId) },
        if z = s.snapshotSize snapId then q else d.resizeQuotas (z - s.snapshotSize snapId) q) := by
  rw [revertSnapshotQuotas, hsnaps]
  dsimp only
  rw [hsize]
  dsimp only
  by_cases heq : z = s.snapshotSize snapId
  · rw [if_neg (not_not.mpr heq), if_pos heq, ← hsnaps, ← heq, ← hsize]
  · rw [if_pos heq, if_neg heq, ← hsnaps]

end Sizes

/-! ## One operation -/

section Operation

variable {d : Disk} {s : Snapshots} {z : ℤ} {imgOwner vmOwner : Bool} {snapId : ℤ}

/-- Without snapshots every operation is charged right. -/
theorem exact_of_none (hnone : d.snapshots = none) (e : Ended) : d.Exact imgOwner vmOwner e := by
  obtain ⟨hsame, hds, hvm⟩ := trigger_of_none hnone (.start imgOwner vmOwner) e
  unfold Exact
  dsimp only
  rw [hsame, Charges.vmLeft, hds, hvm, sub_self, sub_self]
  exact ⟨rfl, fun _ => rfl⟩

/-- A deletion is always charged right. -/
theorem exact_deleted (h : d.Cached) : d.Exact imgOwner vmOwner (.deleted snapId) := by
  cases hsnaps : d.snapshots with
  | none => exact exact_of_none hsnaps _
  | some s =>
    obtain ⟨hmarked, htotal, hsize, hvolatile⟩ := h s hsnaps
    obtain ⟨z, hz⟩ := Option.isSome_iff_exists.mp hsize
    have hsum := Snapshots.totalSize_deleteSnapshot hmarked.ids snapId
    unfold Exact triggerDiskSnapshotSuccess
    dsimp only
    rw [deleteSnapshot, hsnaps]
    dsimp only
    obtain ⟨hsystem, hself⟩ := lost_eq hz htotal hvolatile z (s.deleteSnapshot snapId).totalSize
      (some (s.deleteSnapshot snapId)) (by rw [← hz])
    rw [hsystem, hself, Charges.vmLeft, Charges.start]
    dsimp only
    constructor
    · split_ifs
      · rw [List.nil_append, List.headD_cons]
        omega
      · rfl
    · intro hvm
      rw [decide_eq_true_eq] at hvm
      rw [if_pos hvm, if_pos (by simp [hvm]), DatastoreDeltas.sizeLeft_add_empty]
      omega

/-- The templates after the size of the disk was changed. -/
theorem resized_eq (hvolatile : d.isVolatile = false) (delta : ℤ) {q : Charges}
    (hq : q = if delta = 0 then Charges.start imgOwner vmOwner
      else d.resizeQuotas delta (.start imgOwner vmOwner)) :
    q.vmLeft = (if d.getTmTarget = "SYSTEM".toList then delta else 0) ∧
    (d.getTmTarget = "SELF".toList → q.ds.sizeLeft = delta) ∧
    (d.getTmTarget ≠ "SELF".toList → q.vmOwner = true → q.ds.sizeLeft = 0) := by
  by_cases hdelta : delta = 0
  · rw [if_pos hdelta] at hq
    rw [hq, hdelta, ite_self]
    exact ⟨rfl, fun _ => rfl, fun _ _ => rfl⟩
  · rw [if_neg hdelta, resizeQuotas, hvolatile] at hq
    rw [hq, Charges.vmLeft, Charges.start]
    dsimp only
    refine ⟨?_, ?_, ?_⟩
    · rw [Bool.false_or]
      simp only [decide_eq_true_eq]
      split_ifs
      · rw [List.nil_append, List.headD_cons]
      · rfl
    · intro hself
      rw [if_pos (by simp [hself]), DatastoreDeltas.sizeLeft_add_empty]
    · intro hself hvm
      exact absurd (by simpa using hvm) hself

/-- A revert in the other modes is charged right. -/
theorem exact_reverted (h : d.Cached) (hmode : d.allowOrphans ≠ .linear) :
    d.Exact imgOwner vmOwner (.reverted snapId) := by
  cases hsnaps : d.snapshots with
  | none => exact exact_of_none hsnaps _
  | some s =>
    obtain ⟨-, htotal, hsize, hvolatile⟩ := h s hsnaps
    obtain ⟨z, hz⟩ := Option.isSome_iff_exists.mp hsize
    obtain ⟨hsystem, hself⟩ := lost_eq hz htotal hvolatile (s.snapshotSize snapId) s.totalSize
      (some (s.activeSnapshot snapId true).2) rfl
    unfold Exact triggerDiskSnapshotSuccess
    dsimp only
    rw [if_neg hmode, revertSnapshotQuotas_eq hsnaps hz, revertSnapshot]
    dsimp only at hsystem hself ⊢
    rw [htotal, hsystem, hself]
    generalize hq : (if z = s.snapshotSize snapId then Charges.start imgOwner vmOwner
      else d.resizeQuotas (z - s.snapshotSize snapId) (.start imgOwner vmOwner)) = q
    simp only [← sub_eq_zero (a := z)] at hq
    obtain ⟨hvm, hds, hnone⟩ := resized_eq hvolatile _ hq.symm
    refine ⟨?_, ?_⟩
    · rw [hvm]
      split_ifs
      · omega
      · rfl
    · intro howner
      split_ifs with htm
      · rw [hds htm]
        omega
      · exact hnone htm howner

/-- **When a revert in the mode `LINEAR` is charged right.** -/
theorem exact_reverted_linear (h : d.Cached) (hmode : d.allowOrphans = .linear) :
    d.Exact imgOwner vmOwner (.reverted snapId) ↔ d.Charged (.reverted snapId) := by
  cases hsnaps : d.snapshots with
  | none =>
    refine iff_of_true (exact_of_none hsnaps _) ?_
    intro _ s hs
    rw [hsnaps] at hs
    exact absurd hs (Option.not_mem_none s)
  | some s =>
    obtain ⟨hmarked, htotal, hsize, hvolatile⟩ := h s hsnaps
    obtain ⟨z, hz⟩ := Option.isSome_iff_exists.mp hsize
    have hactive := hmarked.activeSnapshot snapId true
    have hyounger : (s.activeSnapshot snapId true).2.getYoungerSnapshots snapId =
        s.getYoungerSnapshots snapId := Snapshots.getYoungerSnapshots_activeSnapshot snapId true snapId
    generalize hr : (s.getYoungerSnapshots snapId).foldl Snapshots.dropSnapshot
      (0, (s.activeSnapshot snapId true).2) = r
    have hssize : r.1 = youngerSize s snapId := by
      rw [← hr, Snapshots.fst_dropSnapshots _ _ (Snapshots.nodup_getYoungerSnapshots s snapId), zero_add,
        youngerSize]
      refine congrArg List.sum (List.map_congr_left fun i _ => ?_)
      exact Snapshots.snapshotSize_activeSnapshot snapId true i
    have hsum : r.1 + r.2.totalSize = s.totalSize := by
      have hloop := Snapshots.total_dropSnapshots (s.getYoungerSnapshots snapId)
        (0, (s.activeSnapshot snapId true).2) hactive.ids
      rw [hr, zero_add, Snapshots.totalSize_activeSnapshot] at hloop
      exact hloop
    obtain ⟨hsystem, hself⟩ := lost_eq hz htotal hvolatile (s.snapshotSize snapId) r.2.totalSize
      (some r.2) rfl
    have hcharged : d.Charged (.reverted snapId) ↔
        (d.getTmTarget = "SYSTEM".toList → z = s.snapshotSize snapId) ∧
        (d.getTmTarget = "SELF".toList → IsInt (z - s.snapshotSize snapId + r.1) ∧
          (2 ^ 32 : ℤ) ∣ z - s.snapshotSize snapId - readInt (z - s.snapshotSize snapId)) := by
      rw [Charged, hsnaps, hz, hssize]
      simp only [hmode, Option.mem_some_iff, forall_eq', true_implies]
    unfold Exact triggerDiskSnapshotSuccess
    dsimp only
    rw [if_pos hmode, revertSnapshotQuotas_eq hsnaps hz, revertSnapshot]
    dsimp only
    rw [deleteYoungerSnapshots, hsnaps, Option.map_some]
    dsimp only
    rw [hyounger, hr, hsystem, hself, hcharged, getTmTarget_resized]
    generalize hq : (if z = s.snapshotSize snapId then Charges.start imgOwner vmOwner
      else d.resizeQuotas (z - s.snapshotSize snapId) (.start imgOwner vmOwner)) = q
    simp only [← sub_eq_zero (a := z)] at hq
    obtain ⟨hvm, hds, -⟩ := resized_eq hvolatile _ hq.symm
    refine and_congr ?_ ?_
    · rw [Charges.vmLeft] at hvm ⊢
      dsimp only
      by_cases htm : d.getTmTarget = "SYSTEM".toList
      · rw [if_pos htm, if_pos htm, List.headD_cons]
        constructor
        · intro heq _
          omega
        · intro heq
          have := heq htm
          omega
      · rw [if_neg htm] at hvm
        rw [if_neg htm, if_neg htm]
        exact iff_of_true hvm fun hsys => absurd hsys htm
    · by_cases htm : d.getTmTarget = "SELF".toList
      · have hright := toInt_readInt_add (z - s.snapshotSize snapId) r.1
        rw [if_pos (by simp [htm]), if_pos htm, DatastoreDeltas.sizeLeft_replace, hds htm]
        constructor
        · intro heq _
          refine hright.mp ((heq (by simp [htm])).trans ?_)
          omega
        · intro hfits _
          rw [hright.mpr (hfits htm)]
          omega
      · refine iff_of_true (fun howner => absurd (by simpa using howner) htm) fun hself => absurd hself htm

/-- **One operation**: the templates have what the disk loses exactly when the revert is charged right. -/
theorem Cached.exact_iff_charged (h : d.Cached) (e : Ended) : d.Exact imgOwner vmOwner e ↔ d.Charged e := by
  cases e with
  | deleted snapId => exact iff_of_true (exact_deleted h) trivial
  | reverted snapId =>
    by_cases hmode : d.allowOrphans = .linear
    · exact exact_reverted_linear h hmode
    · exact iff_of_true (exact_reverted h hmode) fun hlinear => absurd hlinear hmode

end Operation

/-! ## Runs -/

section Run

variable {d d' : Disk}

theorem cached_of_none (hnone : d.snapshots = none) : d.Cached := by
  intro s hs
  rw [hnone] at hs
  exact absurd hs (Option.not_mem_none s)

theorem Cached.createSnapshot (h : d.Cached) {name : String} {date id : ℤ}
    (hcreate : d.createSnapshot name date = .ok (id, d')) : d'.Cached := by
  unfold Disk.createSnapshot at hcreate
  by_cases hvolatile : d.isVolatile = true
  · rw [if_pos hvolatile] at hcreate
    cases hcreate
  rw [if_neg hvolatile] at hcreate
  rw [Bool.not_eq_true] at hvolatile
  cases hsize : d.size with
  | none =>
    rw [hsize] at hcreate
    cases hcreate
  | some sizeMb =>
    have hsome : d.size.isSome := by
      rw [hsize]
      rfl
    rw [hsize] at hcreate
    dsimp only at hcreate
    by_cases hreadonly : d.readonly = true
    · rw [if_pos hreadonly] at hcreate
      cases hcreate
    rw [if_neg hreadonly] at hcreate
    cases hsnaps : d.snapshots with
    | none =>
      rw [hsnaps] at hcreate
      dsimp only at hcreate
      split_ifs at hcreate
      · cases hcreate
        exact h
      · cases hcreate
        intro s hs
        cases hs
        refine ⟨(Snapshots.marked_new _).createSnapshot _ _ _, ?_, rfl, hvolatile⟩
        exact congrArg some (Snapshots.totalSize_createSnapshot_new _ _ _ _).symm
    | some s =>
      obtain ⟨hmarked, htotal, -, -⟩ := h s hsnaps
      rw [hsnaps] at hcreate
      dsimp only at hcreate
      split_ifs at hcreate with hfailed
      · cases hcreate
        intro s' hs'
        cases hs'
        refine ⟨hmarked.createSnapshot _ _ _, ?_, hsome, hvolatile⟩
        rw [hmarked.createSnapshot_failed hfailed]
        exact htotal
      · cases hcreate
        intro s' hs'
        cases hs'
        exact ⟨hmarked.createSnapshot _ _ _, rfl, hsome, hvolatile⟩

theorem Cached.revertSnapshot (h : d.Cached) (snapId : ℤ) (revert : Bool) :
    (d.revertSnapshot snapId revert).Cached := by
  intro s' hs'
  obtain ⟨s, hs, rfl⟩ := Option.mem_map.mp hs'
  obtain ⟨hmarked, htotal, hsize, hvolatile⟩ := h s hs
  refine ⟨hmarked.activeSnapshot snapId revert, ?_, hsize, hvolatile⟩
  rw [Snapshots.totalSize_activeSnapshot]
  exact htotal

theorem Cached.revertSnapshotQuotas (h : d.Cached) (snapId : ℤ) (q : Charges) :
    (d.revertSnapshotQuotas snapId q).1.Cached := by
  cases hsnaps : d.snapshots with
  | none =>
    rw [Disk.revertSnapshotQuotas, hsnaps]
    exact h
  | some s =>
    obtain ⟨hmarked, htotal, hsize, hvolatile⟩ := h s hsnaps
    obtain ⟨z, hz⟩ := Option.isSome_iff_exists.mp hsize
    rw [revertSnapshotQuotas_eq hsnaps hz]
    intro s' hs'
    obtain ⟨hmarked', htotal', -, hvolatile'⟩ := h s' hs'
    exact ⟨hmarked', htotal', rfl, hvolatile'⟩

theorem Cached.deleteSnapshot (h : d.Cached) (snapId : ℤ) (q : Charges) :
    (d.deleteSnapshot snapId q).1.Cached := by
  rw [Disk.deleteSnapshot]
  split
  · exact h
  · rename_i s hsnaps
    obtain ⟨hmarked, -, hsize, hvolatile⟩ := h s hsnaps
    intro s' hs'
    cases hs'
    exact ⟨hmarked.deleteSnapshot snapId, rfl, hsize, hvolatile⟩

theorem Cached.deleteYoungerSnapshots (h : d.Cached) (snapId : ℤ) (q : Charges) :
    (d.deleteYoungerSnapshots snapId q).1.Cached := by
  rw [Disk.deleteYoungerSnapshots]
  split
  · exact h
  · rename_i s hsnaps
    obtain ⟨hmarked, -, hsize, hvolatile⟩ := h s hsnaps
    intro s' hs'
    cases hs'
    exact ⟨Snapshots.Marked.dropSnapshots _ hmarked, rfl, hsize, hvolatile⟩

/-- The cached size follows the snapshots. -/
theorem Cached.step (h : d.Cached) {op : Op} (hstep : d.step op = some d') : d'.Cached := by
  cases op with
  | create name date =>
    obtain ⟨⟨id, e⟩, hr, rfl⟩ := Option.map_eq_some_iff.mp hstep
    cases hcreate : d.createSnapshot name date with
    | error msg =>
      rw [hcreate] at hr
      cases hr
    | ok r =>
      rw [hcreate] at hr
      cases hr
      exact h.createSnapshot hcreate
  | created snapId =>
    obtain rfl := Option.some.inj hstep
    exact h.revertSnapshot snapId false
  | resize size =>
    obtain rfl := Option.some.inj hstep
    intro s hs
    obtain ⟨hmarked, htotal, -, hvolatile⟩ := h s hs
    exact ⟨hmarked, htotal, rfl, hvolatile⟩
  | ended e =>
    obtain rfl := Option.some.inj hstep
    cases e with
    | deleted snapId => exact h.deleteSnapshot snapId _
    | reverted snapId =>
      have hreverted := (h.revertSnapshotQuotas snapId (.start false false)).revertSnapshot snapId true
      dsimp only [triggerDiskSnapshotSuccess]
      split
      · exact hreverted.deleteYoungerSnapshots snapId _
      · exact hreverted

/-- **The charges of the snapshots of a disk.**  A disk starts without snapshots, or with cached ones.
Whatever happens to it, the end of an operation takes from the quotas what the disk loses exactly when
the operation is a deletion, or a revert that is not in the mode `LINEAR`, or one whose numbers come
through. -/
theorem charge_exact_iff (h : d.Cached) (hrun : Transition.Run Disk.step d d') (imgOwner vmOwner : Bool)
    (e : Ended) : d'.Exact imgOwner vmOwner e ↔ d'.Charged e := by
  have hcached : d'.Cached := by
    refine hrun.inv (P := Cached) h ?_
    intro a op b ha _ hstep
    exact ha.step hstep
  exact hcached.exact_iff_charged e

end Run

/-! ## A disk on the system datastore -/

/-- A disk of 10 MB of a non-persistent image. -/
def systemDisk : Disk where
  imageId := "1".toList
  size := some 10
  diskSnapshotTotalSize := none
  type := "FILE".toList
  clone := some true
  cloneTarget := "SYSTEM".toList
  lnTarget := "NONE".toList
  readonly := false
  persistent := false
  datastoreId := "1".toList
  allowOrphans := .linear
  snapshots := none

/-- It gets a snapshot, grows to 30 MB and gets another one. -/
def grownRun : List Op := [.create "first" 0, .resize 30, .create "second" 1]

/-- The disk then. -/
def grownDisk : Disk :=
  { systemDisk with
    size := some 30
    diskSnapshotTotalSize := some 40
    snapshots := some ⟨.linear, [⟨0, "first", 10, 0, -1, [], false⟩, ⟨1, "second", 30, 1, -1, [], false⟩],
      2, -1, -1⟩ }

theorem run_grownDisk : Transition.Run step systemDisk grownDisk :=
  Transition.run_of_runEvents grownRun rfl

theorem exact_grown_deleted :
    grownDisk.Exact false false (.deleted 0) ∧ ¬ grownDisk.Exact false false (.reverted 0) := by
  have hrun := fun e => charge_exact_iff (cached_of_none rfl) run_grownDisk false false e
  refine ⟨(hrun (.deleted 0)).mpr trivial, ?_⟩
  rw [hrun]
  intro h
  exact absurd ((h rfl _ rfl 30 rfl).1 (by decide)) (by decide)

/-- **The size of the younger snapshots alone is given back.**  The revert to the first snapshot frees
20 MB of the disk and 30 MB of the second snapshot, and the template has the 30 MB. -/
theorem not_exact_grown :
    Transition.Run step systemDisk grownDisk ∧
      (grownDisk.triggerDiskSnapshotSuccess (.start false false) (.reverted 0)).2.vmLeft = 30 ∧
      grownDisk.systemDsSize -
        (grownDisk.triggerDiskSnapshotSuccess (.start false false) (.reverted 0)).1.systemDsSize = 50 ∧
      ¬ grownDisk.Exact false false (.reverted 0) := by
  refine ⟨run_grownDisk, by decide, by decide, ?_⟩
  intro h
  exact absurd h.1 (by decide)

end Disk

end DiskQuota
