/-
# The uses of an image (`src/image/ImageManagerActions.cc`, `include/Image.h`)

A virtual machine acquires the images of its disks and releases them when it is done.  An image has the set of
the virtual machines that use it and the set of its clones that are being made, each with a counter, and a
state that says what can be done with it.  The state is changed by the requests of users and by the reports of
the datastore drivers.

`Protected` says that the set has the virtual machines that have acquired the image and not released it, that
no two of them have a persistent image that is not shareable, and that the image has not been sent to deletion
while somebody used it.  Every step that is `Careful` with an image in `ERROR` that is in use keeps it
(`protected_of_reach`): in that state a release is ignored, the image can be disabled and enabled as if it were
free, and it can be deleted (`not_protected`).

Conventions of the embedding:

* One image is followed.  What a request does to other objects (quotas, datastores, the virtual machine, the
  image that a clone is made from) is left out; the other side of a clone is an event of its own.
* A report can arrive in every state of the image.
* The lock of the object in the database and the notifications of the life-cycle manager are left out, and so
  are the other attributes of an image.  Statements of the database succeed, and there is a driver.
* A backup image has its virtual machine in the set from its creation on and cannot be acquired.
-/
import OpenNebula.ObjectCollection
import OpenNebula.Transition

open Transition

namespace ImageManager

/-! ## Images -/

/-- `Image::ImageType`. -/
inductive ImageType
  | os
  | cdrom
  | datablock
  | kernel
  | ramdisk
  | context
  | backup
  | filesystem
  deriving DecidableEq

/-- `Image::ImageState`. -/
inductive ImageState
  | init
  | ready
  | used
  | disabled
  | locked
  | error
  | clone
  | delete
  | usedPers
  | lockedUsed
  | lockedUsedPers
  deriving DecidableEq

/-- What a clone of an image becomes: the collections of `inc_cloning` and `dec_cloning`. -/
inductive CloneType
  | image
  | marketplaceApp
  deriving DecidableEq

/-- An image: `shareable` is its `PERSISTENT_TYPE`, `hasSource` says that its source is not empty, `snapshots`
is the number of its snapshots, and `saving` and `forceDelete` are attributes of its template. -/
structure Image where
  type : ImageType
  state : ImageState
  persistentImg : Bool
  shareable : Bool
  hasSource : Bool
  snapshots : ℕ
  saving : Bool
  forceDelete : Bool
  vmCollection : ObjectCollection
  runningVms : ℤ
  imgCloneCollection : ObjectCollection
  appCloneCollection : ObjectCollection
  cloningOps : ℤ

/-- The types of images that are disks. -/
def ImageType.isDisk : ImageType → Bool
  | .os | .datablock | .cdrom | .filesystem => true
  | .kernel | .ramdisk | .context | .backup => false

namespace Image

def setState (img : Image) (state : ImageState) : Image := { img with state := state }

/-- `inc_running`, `dec_running`. -/
def incRunning (img : Image) (vmId : ℤ) : Image :=
  let (rc, c) := img.vmCollection.add vmId
  { img with vmCollection := c, runningVms := if rc = 0 then img.runningVms + 1 else img.runningVms }

def decRunning (img : Image) (vmId : ℤ) : Image :=
  let (rc, c) := img.vmCollection.del vmId
  { img with vmCollection := c, runningVms := if rc = 0 then img.runningVms - 1 else img.runningVms }

/-- `inc_cloning`, `dec_cloning`. -/
def incCloning (img : Image) (ot : CloneType) (oid : ℤ) : Image :=
  match ot with
  | .image =>
    let (rc, c) := img.imgCloneCollection.add oid
    { img with imgCloneCollection := c, cloningOps := if rc = 0 then img.cloningOps + 1 else img.cloningOps }
  | .marketplaceApp =>
    let (rc, c) := img.appCloneCollection.add oid
    { img with appCloneCollection := c, cloningOps := if rc = 0 then img.cloningOps + 1 else img.cloningOps }

def decCloning (img : Image) (ot : CloneType) (oid : ℤ) : Image :=
  match ot with
  | .image =>
    let (rc, c) := img.imgCloneCollection.del oid
    { img with imgCloneCollection := c, cloningOps := if rc = 0 then img.cloningOps - 1 else img.cloningOps }
  | .marketplaceApp =>
    let (rc, c) := img.appCloneCollection.del oid
    { img with appCloneCollection := c, cloningOps := if rc = 0 then img.cloningOps - 1 else img.cloningOps }

/-- `set_state_unlock`. -/
def setStateUnlock (img : Image) : Image :=
  match img.state with
  | .locked => img.setState .ready
  | .lockedUsed => img.setState .used
  | .lockedUsedPers => img.setState .usedPers
  | .error =>
    if img.runningVms = 0 then img.setState .ready
    else if img.persistentImg then img.setState .usedPers
    else img.setState .used
  | _ => img

/-- `Image::persistent`, after the type check of the request; `none` is an error. -/
def persistent (img : Image) (persis : Bool) : Option Image :=
  if img.type.isDisk = false ∨ (0 < img.snapshots ∧ persis = false) then none
  else
    match img.state with
    | .used | .clone | .usedPers | .lockedUsed | .lockedUsedPers => none
    | .init | .ready | .disabled | .locked | .error | .delete => some { img with persistentImg := persis }

/-- The end of `Image::insert`: the image is `LOCKED` until it is in its datastore. -/
def insert (type : ImageType) (persistentImg shareable hasSource saving : Bool) (vmId : ℤ) : Image :=
  let img : Image := ⟨type, .locked, persistentImg, shareable, hasSource, 0, saving, false, ∅, 0, ∅, ∅, 0⟩
  if type = .backup then (img.setState .ready).incRunning vmId else img

end Image

/-! ## Uses -/

/-- `acquire_image`; `none` is an error. -/
def acquireImage (img : Image) (vmId : ℤ) (attach : Bool) : Option Image :=
  if img.type.isDisk = false then none
  else
    match img.state with
    | .ready => some ((img.incRunning vmId).setState (if img.persistentImg then .usedPers else .used))
    | .locked =>
      if attach then none
      else some ((img.incRunning vmId).setState (if img.persistentImg then .lockedUsedPers else .lockedUsed))
    | .usedPers => if img.shareable then some (img.incRunning vmId) else none
    | .used => some (img.incRunning vmId)
    | .lockedUsedPers => if img.shareable = false ∨ attach then none else some (img.incRunning vmId)
    | .lockedUsed => if attach then none else some (img.incRunning vmId)
    | .init | .disabled | .error | .delete | .clone => none

/-- `release_image`; in the other states the release is an error that is only logged. -/
def releaseImage (img : Image) (vmId : ℤ) (failed : Bool) : Image :=
  if img.type.isDisk = false then img
  else
    let img' := img.decRunning vmId
    match img.state with
    | .usedPers =>
      if failed then img'.setState .error else if img'.runningVms = 0 then img'.setState .ready else img'
    | .lockedUsedPers =>
      if failed then img'.setState .error else if img'.runningVms = 0 then img'.setState .locked else img'
    | .used => if img'.runningVms = 0 ∧ img'.cloningOps = 0 then img'.setState .ready else img'
    | .lockedUsed => if img'.runningVms = 0 ∧ img'.cloningOps = 0 then img'.setState .locked else img'
    | .locked | .clone | .delete | .init | .disabled | .ready | .error => img

/-- `set_clone_state`; `none` is an error. -/
def setCloneState (img : Image) (ot : CloneType) (newId : ℤ) : Option Image :=
  if img.type = .backup then none
  else
    match img.state with
    | .ready => some ((img.incCloning ot newId).setState (if img.persistentImg then .clone else .used))
    | .used | .clone => some (img.incCloning ot newId)
    | .usedPers | .init | .disabled | .error | .delete | .locked | .lockedUsed | .lockedUsedPers => none

/-- `release_cloning_resource`. -/
def releaseCloningResource (img : Image) (ot : CloneType) (cloneOid : ℤ) : Image :=
  match img.type with
  | .os | .datablock | .cdrom =>
    match img.state with
    | .used | .clone =>
      let img' := img.decCloning ot cloneOid
      if img'.cloningOps = 0 ∧ img'.runningVms = 0 then img'.setState .ready else img'
    | _ => img
  | _ => img

/-- `enable_image`; `none` is an error. -/
def enableImage (img : Image) (toEnable : Bool) : Option Image :=
  if img.type = .backup then none
  else if toEnable then
    match img.state with
    | .disabled => some (img.setState .ready)
    | .error => some img.setStateUnlock
    | .ready => some img
    | _ => none
  else
    match img.state with
    | .ready | .error => some (img.setState .disabled)
    | .disabled => some img
    | _ => none

/-- What becomes of an image that is to be deleted: an image without a source is dropped at once. -/
inductive Deletion
  | refused
  | dropped
  | sent (img : Image)

/-- `delete_image`; `activeBackup` says that the virtual machine of a backup is making one. -/
def deleteImage (img : Image) (activeBackup : Bool) : Deletion :=
  let send : Deletion := if img.hasSource then .sent (img.setState .delete) else .dropped
  if img.type = .backup ∧ activeBackup then .refused
  else
    match img.state with
    | .ready => if img.runningVms ≠ 0 ∧ img.type ≠ .backup then .refused else send
    | .clone | .used | .usedPers | .lockedUsed | .lockedUsedPers => .refused
    | .init | .disabled | .error | .delete | .locked => send

/-- `delete_snapshot`, `revert_snapshot` and `flatten_snapshot` of an image, and `flatten_increments` of a
backup, when their other checks are passed; `none` is an error. -/
def lockSnapshot (img : Image) : Option Image :=
  match img.type, img.state with
  | .os, .ready | .datablock, .ready | .backup, .ready => some (img.setState .locked)
  | _, _ => none

/-- `set_image_snapshots`. -/
def setImageSnapshots (img : Image) (snapshots : ℕ) : Image :=
  match img.type, img.state with
  | .os, .usedPers | .datablock, .usedPers => { img with snapshots := snapshots }
  | _, _ => img

/-! ## Reports of the drivers -/

/-- A report about a new image: the source that it gives can be there although the operation failed later. -/
inductive Report
  | success
  | incomplete
  | failure
  deriving DecidableEq

/-- `_cp` and `_clone`. -/
def cpReport (img : Image) : Report → Image
  | .success => Image.setStateUnlock { img with hasSource := true }
  | .incomplete => Image.setState { img with hasSource := true } .error
  | .failure => img.setState .error

/-- `_mkfs`: an image that is saved from a disk stays locked. -/
def mkfsReport (img : Image) (r : Report) : Image :=
  if img.state = .delete then img
  else
    match r with
    | .success =>
      if img.saving then { img with hasSource := true } else Image.setStateUnlock { img with hasSource := true }
    | .incomplete => Image.setState { img with hasSource := true } .error
    | .failure => img.setState .error

/-- `_rm`; the image is dropped if it is `none`. -/
def rmReport (img : Image) (success : Bool) : Option Image :=
  if success ∨ img.forceDelete then none else some (img.setState .error)

/-- `_snap_delete`, `_snap_revert`, `_snap_flatten` and `_increment_flatten`, with the snapshots that remain. -/
def snapshotReport (img : Image) (snapshots : ℕ) : Image :=
  Image.setStateUnlock { img with snapshots := snapshots }

/-- `trigger_saveas_success` and `trigger_saveas_failure`. -/
def saveasReport (img : Image) (success : Bool) : Image :=
  if success then Image.setStateUnlock { img with saving := false }
  else Image.setState { img with saving := false } .error

/-! ## The uses and the image -/

/-- An image, `none` once it is dropped, with what is known of its uses: the virtual machines that have acquired
it and not released it, the clones that are being made, and whether it was sent to deletion while it was in
use. -/
structure Usage where
  image : Option Image
  holders : Finset ℤ
  clones : Finset (CloneType × ℤ)
  sentInUse : Bool

inductive Event
  | acquire (vmId : ℤ) (attach : Bool)
  | release (vmId : ℤ) (failed : Bool)
  | setClone (ot : CloneType) (newId : ℤ)
  | releaseCloning (ot : CloneType) (cloneOid : ℤ)
  | enable (toEnable : Bool)
  | persistent (persis : Bool)
  | delete (force activeBackup : Bool)
  | lockSnapshot
  | setSnapshots (snapshots : ℕ)
  | register
  | cp (r : Report)
  | mkfs (r : Report)
  | rm (success : Bool)
  | snapshot (snapshots : ℕ)
  | saveas (success : Bool)

namespace Usage

/-- A new image. -/
def start (img : Image) : Usage := ⟨some img, ∅, ∅, false⟩

/-- Somebody uses the image. -/
def inUse (s : Usage) : Bool := decide (s.holders.Nonempty ∨ s.clones.Nonempty)

/-- Another image; an error leaves it as it is. -/
def put (s : Usage) (img : Option Image) : Usage :=
  match img with
  | some img => { s with image := some img }
  | none => s

end Usage

/-- A request or a report for an image that has not been dropped. -/
def handle (s : Usage) (img : Image) : Event → Usage
  | .acquire vmId attach =>
    match acquireImage img vmId attach with
    | some img' => { s with image := some img', holders := insert vmId s.holders }
    | none => s
  | .release vmId failed =>
    { s with image := some (releaseImage img vmId failed), holders := s.holders.erase vmId }
  | .setClone ot newId =>
    match setCloneState img ot newId with
    | some img' => { s with image := some img', clones := insert (ot, newId) s.clones }
    | none => s
  | .releaseCloning ot cloneOid =>
    { s with image := some (releaseCloningResource img ot cloneOid), clones := s.clones.erase (ot, cloneOid) }
  | .enable toEnable => s.put (enableImage img toEnable)
  | .persistent persis => s.put (img.persistent persis)
  | .delete force activeBackup =>
    match deleteImage { img with forceDelete := img.forceDelete || force } activeBackup with
    | .refused => { s with image := some { img with forceDelete := img.forceDelete || force } }
    | .dropped => { s with image := none, sentInUse := s.sentInUse || s.inUse }
    | .sent img' => { s with image := some img', sentInUse := s.sentInUse || s.inUse }
  | .lockSnapshot => s.put (lockSnapshot img)
  | .setSnapshots snapshots => s.put (some (setImageSnapshots img snapshots))
  | .register => s.put (if img.hasSource then some img.setStateUnlock else none)
  | .cp r => s.put (some (cpReport img r))
  | .mkfs r => s.put (some (mkfsReport img r))
  | .rm success => { s with image := rmReport img success }
  | .snapshot snapshots => s.put (some (snapshotReport img snapshots))
  | .saveas success => s.put (some (saveasReport img success))

/-- An event; there is no image for it once the image is dropped. -/
def step (s : Usage) (e : Event) : Option Usage := s.image.map fun img => handle s img e

/-! ## Protection -/

structure Protected (s : Usage) : Prop where
  exact : ∀ img ∈ s.image, ∀ vmId, vmId ∈ img.vmCollection ↔ vmId ∈ s.holders
  single : ∀ img ∈ s.image, img.persistentImg = true → img.shareable = false →
    ∀ v ∈ s.holders, ∀ w ∈ s.holders, v = w
  unsent : s.sentInUse = false

/-- The event is `set_state_unlock` for an image in `ERROR`. -/
def unlocks (img : Image) : Event → Bool
  | .enable toEnable => toEnable && decide (img.type ≠ .backup)
  | .register => img.hasSource
  | .cp r => decide (r = .success)
  | .mkfs r => decide (r = .success) && !img.saving
  | .snapshot _ => true
  | .saveas success => success
  | _ => false

/-- What can happen to an image in `ERROR` that is in use. -/
def CarefulInError (img : Image) (e : Event) : Prop :=
  match e with
  | .release vmId _ => vmId ∉ img.vmCollection
  | .enable false | .delete _ _ => False
  | .persistent persis =>
    persis = true → (img.runningVms = 0 ∨ img.cloningOps = 0) ∧ (img.shareable = false → img.runningVms ≤ 1)
  | e => unlocks img e = true → img.runningVms ≠ 0

instance (img : Image) (e : Event) : Decidable (CarefulInError img e) := by
  unfold CarefulInError
  split <;> infer_instance

/-- While an image in `ERROR` is in use, it is not released by a virtual machine that has it, it is neither
disabled nor deleted, it is not made persistent when its uses do not allow that, and it is not taken for free
while clones are made. -/
def Careful (s : Usage) (e : Event) : Prop :=
  ∀ img ∈ s.image, img.state = .error → (img.runningVms ≠ 0 ∨ img.cloningOps ≠ 0) → CarefulInError img e

instance (s : Usage) (e : Event) : Decidable (Careful s e) := by
  unfold Careful
  infer_instance

/-! ## The counters and the states -/

section Good

variable {img img' : Image} {vmId oid : ℤ} {ot : CloneType}

/-- What the state says about the uses. -/
def Fits (state : ImageState) (persistentImg : Bool) (r c : ℤ) : Prop :=
  match state with
  | .init | .ready | .disabled | .locked | .delete => r = 0 ∧ c = 0
  | .used => persistentImg = false
  | .usedPers | .lockedUsedPers => persistentImg = true ∧ c = 0
  | .clone => persistentImg = true ∧ r = 0
  | .lockedUsed => persistentImg = false ∧ c = 0
  | .error => persistentImg = true → r = 0 ∨ c = 0

structure Good (img : Image) : Prop where
  running : img.runningVms = img.vmCollection.card
  cloning : img.cloningOps = img.imgCloneCollection.card + img.appCloneCollection.card
  type : img.type ≠ .backup
  disk : img.type.isDisk = false → img.runningVms = 0
  fits : Fits img.state img.persistentImg img.runningVms img.cloningOps
  single : img.persistentImg = true → img.shareable = false → img.runningVms ≤ 1

/-- A counter with the number of a collection and a rest follows the collection. -/
theorem count_add {c : ObjectCollection} {n k : ℤ} (h : n = c.card + k) (id : ℤ) :
    (if (c.add id).1 = 0 then n + 1 else n) = (c.add id).2.card + k := by
  show (if (if id ∈ c then (-1 : ℤ) else 0) = 0 then _ else _) = ((insert id c : Finset ℤ).card : ℤ) + k
  by_cases hmem : id ∈ c
  · rw [if_pos hmem, if_neg (by decide), Finset.insert_eq_of_mem hmem, h]
  · rw [if_neg hmem, if_pos rfl, Finset.card_insert_of_notMem hmem]
    omega

theorem count_del {c : ObjectCollection} {n k : ℤ} (h : n = c.card + k) (id : ℤ) :
    (if (c.del id).1 = 0 then n - 1 else n) = (c.del id).2.card + k := by
  show (if (if id ∈ c then (0 : ℤ) else -1) = 0 then _ else _) = ((c.erase id).card : ℤ) + k
  by_cases hmem : id ∈ c
  · have hcard := Finset.card_erase_add_one hmem
    rw [if_pos hmem, if_pos rfl]
    omega
  · rw [if_neg hmem, if_neg (by decide), Finset.erase_eq_of_notMem hmem, h]

theorem running_incRunning (h : img.runningVms = img.vmCollection.card) :
    (img.incRunning vmId).runningVms = (insert vmId img.vmCollection).card :=
  (count_add (h.trans (add_zero _).symm) vmId).trans (add_zero _)

theorem running_decRunning (h : img.runningVms = img.vmCollection.card) :
    (img.decRunning vmId).runningVms = (img.vmCollection.erase vmId).card :=
  (count_del (h.trans (add_zero _).symm) vmId).trans (add_zero _)

/-- The collection of clones. -/
def Image.cloneCollection (img : Image) : CloneType → ObjectCollection
  | .image => img.imgCloneCollection
  | .marketplaceApp => img.appCloneCollection

theorem cloning_incCloning (h : img.cloningOps = img.imgCloneCollection.card + img.appCloneCollection.card) :
    (img.incCloning ot oid).cloningOps =
      (img.incCloning ot oid).imgCloneCollection.card + (img.incCloning ot oid).appCloneCollection.card := by
  cases ot with
  | image => exact count_add h oid
  | marketplaceApp => exact (count_add (h.trans (add_comm _ _)) oid).trans (add_comm _ _)

theorem cloning_decCloning (h : img.cloningOps = img.imgCloneCollection.card + img.appCloneCollection.card) :
    (img.decCloning ot oid).cloningOps =
      (img.decCloning ot oid).imgCloneCollection.card + (img.decCloning ot oid).appCloneCollection.card := by
  cases ot with
  | image => exact count_del h oid
  | marketplaceApp => exact (count_del (h.trans (add_comm _ _)) oid).trans (add_comm _ _)

/-- Nobody uses the image. -/
theorem Good.empty (h : Good img) (hr : img.runningVms = 0) : img.vmCollection = ∅ := by
  rw [← Finset.card_eq_zero]
  have hcard := h.running
  omega

theorem Good.uncloned (h : Good img) (hc : img.cloningOps = 0) : img.cloneCollection ot = ∅ := by
  have hcard := h.cloning
  cases ot
  · show img.imgCloneCollection = ∅
    rw [← Finset.card_eq_zero]
    omega
  · show img.appCloneCollection = ∅
    rw [← Finset.card_eq_zero]
    omega

theorem Good.setState (h : Good img) {state : ImageState}
    (hfits : Fits state img.persistentImg img.runningVms img.cloningOps) : Good (img.setState state) :=
  ⟨h.running, h.cloning, h.type, h.disk, hfits, h.single⟩

/-- A virtual machine more, with the state that follows. -/
theorem Good.incRunning (h : Good img) {state : ImageState} (hdisk : img.type.isDisk = true)
    (hfits : ∀ r : ℤ, 0 < r → Fits state img.persistentImg r img.cloningOps)
    (hsingle : img.persistentImg = true → img.shareable = false → img.runningVms = 0) :
    Good ((img.incRunning vmId).setState state) := by
  have hrunning : (img.incRunning vmId).runningVms = _ := running_incRunning h.running
  have hpos : 0 < (insert vmId img.vmCollection).card := Finset.card_pos.mpr ⟨vmId, Finset.mem_insert_self _ _⟩
  have hle := Finset.card_insert_le vmId img.vmCollection
  have hcard := h.running
  have hsome : 0 < (img.incRunning vmId).runningVms := by omega
  refine ⟨hrunning, h.cloning, h.type, fun hfalse => ?_, hfits _ hsome, fun hp hs => ?_⟩
  · exact absurd (hdisk.symm.trans hfalse) Bool.false_ne_true.symm
  · have hnone := hsingle hp hs
    show (img.incRunning vmId).runningVms ≤ 1
    omega

/-- A virtual machine less, with the state that follows. -/
theorem Good.decRunning (h : Good img) {state : ImageState}
    (hfits : Fits state img.persistentImg (img.decRunning vmId).runningVms img.cloningOps) :
    Good ((img.decRunning vmId).setState state) := by
  have hrunning : (img.decRunning vmId).runningVms = _ := running_decRunning h.running
  have hle := Finset.card_erase_le (a := vmId) (s := img.vmCollection)
  have hcard := h.running
  refine ⟨hrunning, h.cloning, h.type, fun hfalse => ?_, hfits, fun hp hs => ?_⟩
  · have hnone := h.disk hfalse
    show (img.decRunning vmId).runningVms = 0
    omega
  · have hone := h.single hp hs
    show (img.decRunning vmId).runningVms ≤ 1
    omega

/-- A report of a failure is possible in every state. -/
theorem Good.error (h : Good img) : Good (img.setState .error) := by
  refine h.setState fun hp => ?_
  have hfits := h.fits
  cases hstate : img.state <;> rw [hstate] at hfits
  case used => exact absurd (hp.symm.trans hfits) Bool.false_ne_true.symm
  case lockedUsed => exact absurd (hp.symm.trans hfits.1) Bool.false_ne_true.symm
  case usedPers | lockedUsedPers => exact Or.inr hfits.2
  case clone => exact Or.inl hfits.2
  case error => exact hfits hp
  case init | ready | disabled | locked | delete => exact Or.inl hfits.1

/-- An operation that does not change the uses. -/
structure Keeps (img img' : Image) : Prop where
  good : Good img'
  vms : img'.vmCollection = img.vmCollection
  clones : ∀ ot, img'.cloneCollection ot = img.cloneCollection ot

theorem Good.keeps_setState (h : Good img) {state : ImageState}
    (hfits : Fits state img.persistentImg img.runningVms img.cloningOps) : Keeps img (img.setState state) :=
  ⟨h.setState hfits, rfl, fun ot => by cases ot <;> rfl⟩

theorem Good.keeps_error (h : Good img) : Keeps img (img.setState .error) :=
  ⟨h.error, rfl, fun ot => by cases ot <;> rfl⟩

theorem Good.keeps_self (h : Good img) : Keeps img img := ⟨h, rfl, fun _ => rfl⟩

/-- An unlock: an image in `ERROR` is free, or a virtual machine uses it. -/
theorem Good.keeps_setStateUnlock (h : Good img)
    (hcalm : img.state = .error → img.runningVms ≠ 0 ∨ img.cloningOps ≠ 0 → img.runningVms ≠ 0) :
    Keeps img img.setStateUnlock := by
  have hfits := h.fits
  unfold Image.setStateUnlock
  cases hstate : img.state <;> rw [hstate] at hfits
  case locked => exact h.keeps_setState hfits
  case lockedUsed => exact h.keeps_setState hfits.1
  case lockedUsedPers => exact h.keeps_setState hfits
  case error =>
    have hused := hcalm hstate
    by_cases hfree : img.runningVms = 0
    · have hc : img.cloningOps = 0 := by
        by_contra hc
        exact hused (Or.inr hc) hfree
      show Keeps img (if _ then _ else _)
      rw [if_pos hfree]
      exact h.keeps_setState ⟨hfree, hc⟩
    · show Keeps img (if _ then _ else if _ then _ else _)
      rw [if_neg hfree]
      split
      · rename_i hp
        exact h.keeps_setState ⟨hp, (hfits hp).resolve_left hfree⟩
      · rename_i hp
        exact h.keeps_setState (Bool.eq_false_of_not_eq_true hp)
  all_goals exact h.keeps_self

/-! ### Requests -/

theorem keeps_persistent (h : Good img) {persis : Bool}
    (hcalm : img.state = .error → img.runningVms ≠ 0 ∨ img.cloningOps ≠ 0 → persis = true →
      (img.runningVms = 0 ∨ img.cloningOps = 0) ∧ (img.shareable = false → img.runningVms ≤ 1)) :
    ∀ img' ∈ img.persistent persis, Keeps img img' := by
  intro img' hsome
  have hfits := h.fits
  have hkeeps : Fits img.state persis img.runningVms img.cloningOps →
      (persis = true → img.shareable = false → img.runningVms ≤ 1) →
      Keeps img { img with persistentImg := persis } := fun hfits' hsingle =>
    ⟨⟨h.running, h.cloning, h.type, h.disk, hfits', hsingle⟩, rfl, fun ot => by cases ot <;> rfl⟩
  unfold Image.persistent at hsome
  split at hsome
  · cases hsome
  · cases hstate : img.state <;> rw [hstate] at hsome hfits hkeeps
    case used | clone | usedPers | lockedUsed | lockedUsedPers => cases hsome
    case error =>
      cases hsome
      by_cases hbusy : img.runningVms ≠ 0 ∨ img.cloningOps ≠ 0
      · have hcare := hcalm hstate hbusy
        exact hkeeps (fun hp => (hcare hp).1) fun hp => (hcare hp).2
      · exact hkeeps (fun _ => by omega) fun _ _ => by omega
    all_goals
      cases hsome
      exact hkeeps hfits fun _ _ => hfits.1.le.trans zero_le_one

theorem keeps_enableImage (h : Good img) {toEnable : Bool}
    (hcalm : img.state = .error → img.runningVms ≠ 0 ∨ img.cloningOps ≠ 0 →
      toEnable = true ∧ img.runningVms ≠ 0) :
    ∀ img' ∈ enableImage img toEnable, Keeps img img' := by
  intro img' hsome
  have hfits := h.fits
  unfold enableImage at hsome
  rw [if_neg h.type] at hsome
  cases toEnable
  · rw [if_neg Bool.false_ne_true] at hsome
    cases hstate : img.state <;> rw [hstate] at hsome hfits
    case ready => exact Option.some.inj hsome ▸ h.keeps_setState hfits
    case disabled => exact Option.some.inj hsome ▸ h.keeps_self
    case error =>
      cases hsome
      have hfree : ¬ (img.runningVms ≠ 0 ∨ img.cloningOps ≠ 0) :=
        fun hbusy => Bool.false_ne_true (hcalm hstate hbusy).1
      refine h.keeps_setState (show _ ∧ _ from ?_)
      omega
    all_goals cases hsome
  · rw [if_pos rfl] at hsome
    cases hstate : img.state <;> rw [hstate] at hsome hfits
    case ready => exact Option.some.inj hsome ▸ h.keeps_self
    case disabled => exact Option.some.inj hsome ▸ h.keeps_setState hfits
    case error =>
      exact Option.some.inj hsome ▸ h.keeps_setStateUnlock fun hst hbusy => (hcalm hst hbusy).2
    all_goals cases hsome

theorem keeps_lockSnapshot (h : Good img) : ∀ img' ∈ lockSnapshot img, Keeps img img' := by
  intro img' hsome
  have hfits := h.fits
  unfold lockSnapshot at hsome
  split at hsome
  case h_4 => cases hsome
  all_goals
    rename_i hstate
    rw [hstate] at hfits
    exact Option.some.inj hsome ▸ h.keeps_setState hfits

theorem keeps_setImageSnapshots (h : Good img) (snapshots : ℕ) : Keeps img (setImageSnapshots img snapshots) := by
  unfold setImageSnapshots
  split
  · exact ⟨⟨h.running, h.cloning, h.type, h.disk, h.fits, h.single⟩, rfl, fun ot => by cases ot <;> rfl⟩
  · exact ⟨⟨h.running, h.cloning, h.type, h.disk, h.fits, h.single⟩, rfl, fun ot => by cases ot <;> rfl⟩
  · exact h.keeps_self

/-- A deletion goes on only for an image that is not in use. -/
theorem deleteImage_cases (h : Good img) (activeBackup : Bool)
    (hcalm : img.state = .error → img.runningVms = 0 ∧ img.cloningOps = 0) :
    deleteImage img activeBackup = .refused ∨ (img.runningVms = 0 ∧ img.cloningOps = 0) ∧
      (deleteImage img activeBackup = .dropped ∨
        ∃ img', deleteImage img activeBackup = .sent img' ∧ Keeps img img') := by
  have hfits := h.fits
  have hsend : img.runningVms = 0 ∧ img.cloningOps = 0 → ∀ d : Deletion,
      d = (if img.hasSource then .sent (img.setState .delete) else .dropped) →
        d = .refused ∨ (img.runningVms = 0 ∧ img.cloningOps = 0) ∧
          (d = .dropped ∨ ∃ img', d = .sent img' ∧ Keeps img img') := by
    rintro hfree d rfl
    refine Or.inr ⟨hfree, ?_⟩
    cases img.hasSource
    · exact Or.inl rfl
    · exact Or.inr ⟨_, rfl, h.keeps_setState hfree⟩
  unfold deleteImage
  rw [if_neg fun hb => h.type hb.1]
  cases hstate : img.state <;> rw [hstate] at hfits
  case ready =>
    refine hsend hfits _ ?_
    rw [if_neg fun hused => hused.1 hfits.1]
  case clone | used | usedPers | lockedUsed | lockedUsedPers => exact Or.inl rfl
  case error => exact hsend (hcalm hstate) _ rfl
  all_goals exact hsend hfits _ rfl

/-! ### Reports -/

theorem Good.hasSource (h : Good img) : Good { img with hasSource := true } :=
  ⟨h.running, h.cloning, h.type, h.disk, h.fits, h.single⟩

theorem keeps_cpReport (h : Good img) {r : Report}
    (hcalm : r = .success → img.state = .error → img.runningVms ≠ 0 ∨ img.cloningOps ≠ 0 →
      img.runningVms ≠ 0) : Keeps img (cpReport img r) := by
  cases r
  · obtain ⟨hgood, hvms, hclones⟩ := h.hasSource.keeps_setStateUnlock (hcalm rfl)
    exact ⟨hgood, hvms, fun ot => by rw [cpReport, hclones]; cases ot <;> rfl⟩
  · exact ⟨h.hasSource.error, rfl, fun ot => by cases ot <;> rfl⟩
  · exact h.keeps_error

theorem keeps_mkfsReport (h : Good img) {r : Report}
    (hcalm : r = .success ∧ img.saving = false → img.state = .error →
      img.runningVms ≠ 0 ∨ img.cloningOps ≠ 0 → img.runningVms ≠ 0) : Keeps img (mkfsReport img r) := by
  unfold mkfsReport
  split
  · exact h.keeps_self
  · cases r
    · show Keeps img (if _ then _ else _)
      split
      · exact ⟨h.hasSource, rfl, fun ot => by cases ot <;> rfl⟩
      · rename_i hsaving
        exact keeps_cpReport (r := .success) h fun _ =>
          hcalm ⟨rfl, Bool.eq_false_of_not_eq_true hsaving⟩
    · exact ⟨h.hasSource.error, rfl, fun ot => by cases ot <;> rfl⟩
    · exact h.keeps_error

theorem keeps_rmReport (h : Good img) {success : Bool} : ∀ img' ∈ rmReport img success, Keeps img img' := by
  intro img' hsome
  unfold rmReport at hsome
  split at hsome
  · cases hsome
  · exact Option.some.inj hsome ▸ h.keeps_error

theorem keeps_snapshotReport (h : Good img) {snapshots : ℕ}
    (hcalm : img.state = .error → img.runningVms ≠ 0 ∨ img.cloningOps ≠ 0 → img.runningVms ≠ 0) :
    Keeps img (snapshotReport img snapshots) := by
  have hgood : Good { img with snapshots := snapshots } :=
    ⟨h.running, h.cloning, h.type, h.disk, h.fits, h.single⟩
  obtain ⟨hgood', hvms, hclones⟩ := hgood.keeps_setStateUnlock hcalm
  exact ⟨hgood', hvms, fun ot => by rw [snapshotReport, hclones]; cases ot <;> rfl⟩

theorem keeps_saveasReport (h : Good img) {success : Bool}
    (hcalm : success = true → img.state = .error → img.runningVms ≠ 0 ∨ img.cloningOps ≠ 0 →
      img.runningVms ≠ 0) : Keeps img (saveasReport img success) := by
  have hgood : Good { img with saving := false } :=
    ⟨h.running, h.cloning, h.type, h.disk, h.fits, h.single⟩
  cases success
  · exact ⟨hgood.error, rfl, fun ot => by cases ot <;> rfl⟩
  · obtain ⟨hgood', hvms, hclones⟩ := hgood.keeps_setStateUnlock (hcalm rfl)
    refine ⟨hgood', hvms, fun ot => ?_⟩
    show (Image.setStateUnlock _).cloneCollection ot = _
    rw [hclones]
    cases ot <;> rfl

/-! ### Uses -/

/-- An image is acquired by a virtual machine that it is now used by. -/
theorem good_acquireImage (h : Good img) {attach : Bool} (he : acquireImage img vmId attach = some img') :
    Good img' ∧ img'.vmCollection = insert vmId img.vmCollection ∧
      ∀ ot, img'.cloneCollection ot = img.cloneCollection ot := by
  have hfits := h.fits
  have hdisk : img.type.isDisk = true := by
    by_contra hfalse
    rw [acquireImage, if_pos (Bool.eq_false_of_not_eq_true hfalse)] at he
    cases he
  have hnext : ∀ state, (∀ r : ℤ, 0 < r → Fits state img.persistentImg r img.cloningOps) →
      (img.persistentImg = true → img.shareable = false → img.runningVms = 0) →
      img' = (img.incRunning vmId).setState state →
      Good img' ∧ img'.vmCollection = insert vmId img.vmCollection ∧
        ∀ ot, img'.cloneCollection ot = img.cloneCollection ot := by
    rintro state hr hs rfl
    exact ⟨h.incRunning hdisk hr hs, rfl, fun ot => by cases ot <;> rfl⟩
  have hsame : img.incRunning vmId = (img.incRunning vmId).setState img.state := rfl
  rw [acquireImage, if_neg (by rw [hdisk]; decide)] at he
  cases hstate : img.state <;> rw [hstate] at he hfits hsame
  case ready =>
    refine hnext _ (fun r _ => ?_) (fun _ _ => hfits.1) (Option.some.inj he).symm
    split
    · rename_i hp
      exact ⟨hp, hfits.2⟩
    · rename_i hp
      exact Bool.eq_false_of_not_eq_true hp
  case locked =>
    obtain ⟨-, he⟩ := Option.ite_none_left_eq_some.mp he
    refine hnext _ (fun r _ => ?_) (fun _ _ => hfits.1) (Option.some.inj he).symm
    split
    · rename_i hp
      exact ⟨hp, hfits.2⟩
    · rename_i hp
      exact ⟨Bool.eq_false_of_not_eq_true hp, hfits.2⟩
  case usedPers =>
    obtain ⟨hshare, he⟩ := Option.ite_none_right_eq_some.mp he
    exact hnext .usedPers (fun _ _ => hfits) (fun _ hs => absurd hshare (by rw [hs]; decide))
      ((Option.some.inj he).symm.trans hsame)
  case used =>
    exact hnext .used (fun _ _ => hfits) (fun hp _ => absurd (hp.symm.trans hfits) (by decide))
      ((Option.some.inj he).symm.trans hsame)
  case lockedUsedPers =>
    obtain ⟨hshare, he⟩ := Option.ite_none_left_eq_some.mp he
    exact hnext .lockedUsedPers (fun _ _ => hfits) (fun _ hs => absurd (Or.inl hs) hshare)
      ((Option.some.inj he).symm.trans hsame)
  case lockedUsed =>
    obtain ⟨-, he⟩ := Option.ite_none_left_eq_some.mp he
    exact hnext .lockedUsed (fun _ _ => hfits) (fun hp _ => absurd (hp.symm.trans hfits.1) (by decide))
      ((Option.some.inj he).symm.trans hsame)
  all_goals cases he

/-- An image is released by a virtual machine, unless the image is in `ERROR`. -/
theorem good_releaseImage (h : Good img) (vmId : ℤ) (failed : Bool)
    (hcalm : img.state = .error → vmId ∉ img.vmCollection) :
    Good (releaseImage img vmId failed) ∧
      (releaseImage img vmId failed).vmCollection = img.vmCollection.erase vmId ∧
      ∀ ot, (releaseImage img vmId failed).cloneCollection ot = img.cloneCollection ot := by
  have hfits := h.fits
  have hself : vmId ∉ img.vmCollection →
      Good img ∧ img.vmCollection = img.vmCollection.erase vmId ∧
        ∀ ot, img.cloneCollection ot = img.cloneCollection ot :=
    fun hmem => ⟨h, (Finset.erase_eq_of_notMem hmem).symm, fun _ => rfl⟩
  have hempty : img.runningVms = 0 → vmId ∉ img.vmCollection := by
    intro hr
    rw [h.empty hr]
    exact Finset.notMem_empty vmId
  have hnext : ∀ state img', img' = (img.decRunning vmId).setState state →
      Fits state img.persistentImg (img.decRunning vmId).runningVms img.cloningOps →
      Good img' ∧ img'.vmCollection = img.vmCollection.erase vmId ∧
        ∀ ot, img'.cloneCollection ot = img.cloneCollection ot := by
    rintro state _ rfl hst
    exact ⟨h.decRunning hst, rfl, fun ot => by cases ot <;> rfl⟩
  have hsame : img.decRunning vmId = (img.decRunning vmId).setState img.state := rfl
  unfold releaseImage
  split
  · rename_i hdisk
    exact hself (hempty (h.disk hdisk))
  · cases hstate : img.state <;> rw [hstate] at hfits hsame
    case error => exact hself (hcalm hstate)
    case clone => exact hself (hempty hfits.2)
    case init | ready | disabled | locked | delete => exact hself (hempty hfits.1)
    case used =>
      dsimp only
      split
      · rename_i hfree
        exact hnext .ready _ rfl hfree
      · exact hnext .used _ hsame hfits
    case lockedUsed =>
      dsimp only
      split
      · rename_i hfree
        exact hnext .locked _ rfl hfree
      · exact hnext .lockedUsed _ hsame hfits
    case usedPers =>
      dsimp only
      split
      · exact hnext .error _ rfl fun _ => Or.inr hfits.2
      · split
        · rename_i hfree
          exact hnext .ready _ rfl ⟨hfree, hfits.2⟩
        · exact hnext .usedPers _ hsame hfits
    case lockedUsedPers =>
      dsimp only
      split
      · exact hnext .error _ rfl fun _ => Or.inr hfits.2
      · split
        · rename_i hfree
          exact hnext .locked _ rfl ⟨hfree, hfits.2⟩
        · exact hnext .lockedUsedPers _ hsame hfits

/-- A clone more or less, with the state that follows. -/
theorem Good.incCloning (h : Good img) {state : ImageState}
    (hfits : ∀ c, Fits state img.persistentImg img.runningVms c) :
    Good ((img.incCloning ot oid).setState state) := by
  have hcloning : (img.incCloning ot oid).cloningOps = _ := cloning_incCloning h.cloning
  cases ot
  · exact ⟨h.running, hcloning, h.type, h.disk, hfits _, h.single⟩
  · exact ⟨h.running, hcloning, h.type, h.disk, hfits _, h.single⟩

theorem Good.decCloning (h : Good img) {state : ImageState}
    (hfits : Fits state img.persistentImg img.runningVms (img.decCloning ot oid).cloningOps) :
    Good ((img.decCloning ot oid).setState state) := by
  have hcloning : (img.decCloning ot oid).cloningOps = _ := cloning_decCloning h.cloning
  cases ot
  · exact ⟨h.running, hcloning, h.type, h.disk, hfits, h.single⟩
  · exact ⟨h.running, hcloning, h.type, h.disk, hfits, h.single⟩

theorem mem_incCloning (state : ImageState) :
    oid ∈ ((img.incCloning ot oid).setState state).cloneCollection ot ∧
      ∀ ot', img.cloneCollection ot' ⊆ ((img.incCloning ot oid).setState state).cloneCollection ot' := by
  cases ot
  · refine ⟨Finset.mem_insert_self _ _, fun ot' => ?_⟩
    cases ot'
    · exact Finset.subset_insert oid img.imgCloneCollection
    · exact Finset.Subset.refl img.appCloneCollection
  · refine ⟨Finset.mem_insert_self _ _, fun ot' => ?_⟩
    cases ot'
    · exact Finset.Subset.refl img.imgCloneCollection
    · exact Finset.subset_insert oid img.appCloneCollection

theorem mem_decCloning (state : ImageState) {ot' : CloneType} {oid' : ℤ} (hne : (ot', oid') ≠ (ot, oid))
    (hmem : oid' ∈ img.cloneCollection ot') :
    oid' ∈ ((img.decCloning ot oid).setState state).cloneCollection ot' := by
  cases ot <;> cases ot'
  · exact Finset.mem_erase.mpr ⟨fun he => hne (he ▸ rfl), hmem⟩
  · exact hmem
  · exact hmem
  · exact Finset.mem_erase.mpr ⟨fun he => hne (he ▸ rfl), hmem⟩

/-- A clone starts: it is in the collection. -/
theorem good_setCloneState (h : Good img) (he : setCloneState img ot oid = some img') :
    Good img' ∧ img'.vmCollection = img.vmCollection ∧ oid ∈ img'.cloneCollection ot ∧
      ∀ ot', img.cloneCollection ot' ⊆ img'.cloneCollection ot' := by
  have hfits := h.fits
  have hnext : ∀ state, (∀ c, Fits state img.persistentImg img.runningVms c) →
      img' = (img.incCloning ot oid).setState state →
      Good img' ∧ img'.vmCollection = img.vmCollection ∧ oid ∈ img'.cloneCollection ot ∧
        ∀ ot', img.cloneCollection ot' ⊆ img'.cloneCollection ot' := by
    rintro state hst rfl
    exact ⟨h.incCloning hst, by cases ot <;> rfl, mem_incCloning state⟩
  have hsame : img.incCloning ot oid = (img.incCloning ot oid).setState img.state := by cases ot <;> rfl
  rw [setCloneState, if_neg h.type] at he
  cases hstate : img.state <;> rw [hstate] at he hfits hsame
  case ready =>
    refine hnext _ (fun c => ?_) (Option.some.inj he).symm
    split
    · rename_i hp
      exact ⟨hp, hfits.1⟩
    · rename_i hp
      exact Bool.eq_false_of_not_eq_true hp
  case used => exact hnext .used (fun _ => hfits) ((Option.some.inj he).symm.trans hsame)
  case clone => exact hnext .clone (fun _ => hfits) ((Option.some.inj he).symm.trans hsame)
  all_goals cases he

/-- A clone ends: the others stay in the collections. -/
theorem good_releaseCloningResource (h : Good img) (ot : CloneType) (oid : ℤ) :
    Good (releaseCloningResource img ot oid) ∧
      (releaseCloningResource img ot oid).vmCollection = img.vmCollection ∧
      ∀ ot' oid', (ot', oid') ≠ (ot, oid) → oid' ∈ img.cloneCollection ot' →
        oid' ∈ (releaseCloningResource img ot oid).cloneCollection ot' := by
  have hnext : ∀ state img', img' = (img.decCloning ot oid).setState state →
      Fits state img.persistentImg img.runningVms (img.decCloning ot oid).cloningOps →
      Good img' ∧ img'.vmCollection = img.vmCollection ∧ ∀ ot' oid', (ot', oid') ≠ (ot, oid) →
        oid' ∈ img.cloneCollection ot' → oid' ∈ img'.cloneCollection ot' := by
    rintro state _ rfl hst
    exact ⟨h.decCloning hst, by cases ot <;> rfl, fun _ _ => mem_decCloning state⟩
  have hself : Good img ∧ img.vmCollection = img.vmCollection ∧ ∀ ot' oid', (ot', oid') ≠ (ot, oid) →
      oid' ∈ img.cloneCollection ot' → oid' ∈ img.cloneCollection ot' := ⟨h, rfl, fun _ _ _ hmem => hmem⟩
  have hfits := h.fits
  have hsame : img.decCloning ot oid = (img.decCloning ot oid).setState img.state := by cases ot <;> rfl
  have hrunning : (img.decCloning ot oid).runningVms = img.runningVms := by cases ot <;> rfl
  unfold releaseCloningResource
  split
  case h_4 => exact hself
  all_goals
    cases hstate : img.state <;> rw [hstate] at hfits hsame
    case used =>
      dsimp only
      split
      · rename_i hfree
        exact hnext .ready _ rfl ⟨hrunning ▸ hfree.2, hfree.1⟩
      · exact hnext .used _ hsame hfits
    case clone =>
      dsimp only
      split
      · rename_i hfree
        exact hnext .ready _ rfl ⟨hrunning ▸ hfree.2, hfree.1⟩
      · exact hnext .clone _ hsame hfits
    all_goals exact hself

end Good

/-! ## Every run -/

/-- What every step keeps. -/
structure Inv (s : Usage) : Prop where
  good : ∀ img ∈ s.image, Good img
  vms : ∀ img ∈ s.image, img.vmCollection = s.holders
  clones : ∀ img ∈ s.image, ∀ c ∈ s.clones, c.2 ∈ img.cloneCollection c.1
  unsent : s.sentInUse = false

section Run

variable {s s' : Usage} {img img' : Image}

/-- The invariant of a state with an image. -/
theorem Inv.of_image {holders : Finset ℤ} {clones : Finset (CloneType × ℤ)} {sentInUse : Bool} (hgood : Good img)
    (hvms : img.vmCollection = holders) (hclones : ∀ c ∈ clones, c.2 ∈ img.cloneCollection c.1)
    (hunsent : sentInUse = false) : Inv ⟨some img, holders, clones, sentInUse⟩ := by
  refine ⟨fun img' hi => ?_, fun img' hi => ?_, fun img' hi => ?_, hunsent⟩ <;> cases hi
  · exact hgood
  · exact hvms
  · exact hclones

theorem Inv.keeps (h : Inv s) (hs : s.image = some img) (hk : Keeps img img') :
    Inv { s with image := some img' } := by
  refine Inv.of_image hk.good (hk.vms.trans (h.vms img hs)) (fun c hc => ?_) h.unsent
  rw [hk.clones]
  exact h.clones img hs c hc

/-- The image is dropped. -/
theorem Inv.drop (h : Inv s) : Inv { s with image := none } :=
  ⟨fun _ hnone => absurd hnone (by simp), fun _ hnone => absurd hnone (by simp),
    fun _ hnone => absurd hnone (by simp), h.unsent⟩

theorem Inv.put (h : Inv s) (hs : s.image = some img) {o : Option Image} (hk : ∀ img' ∈ o, Keeps img img') :
    Inv (s.put o) := by
  cases o with
  | none => exact h
  | some img' => exact h.keeps hs (hk img' rfl)

/-- Nobody uses an image without running machines and cloning operations. -/
theorem Inv.not_inUse (h : Inv s) (hs : s.image = some img) (hr : img.runningVms = 0) (hc : img.cloningOps = 0) :
    s.inUse = false := by
  have hgood := h.good img hs
  refine decide_eq_false ?_
  rintro (⟨v, hv⟩ | ⟨c, hc'⟩)
  · rw [← h.vms img hs, hgood.empty hr] at hv
    exact Finset.notMem_empty v hv
  · have hmem := h.clones img hs c hc'
    rw [hgood.uncloned hc] at hmem
    exact Finset.notMem_empty c.2 hmem

/-- A step from a state with the invariant, when what it does to an image in `ERROR` is careful. -/
theorem inv_handle {e : Event} (h : Inv s) (hs : s.image = some img) (hcareful : Careful s e) :
    Inv (handle s img e) := by
  have hgood := h.good img hs
  have herror := hcareful img hs
  cases e with
  | acquire vmId attach =>
    rcases he : acquireImage img vmId attach with - | img'
    · simpa only [handle, he] using h
    · obtain ⟨hgood', hvms, hclones⟩ := good_acquireImage hgood he
      simp only [handle, he]
      refine Inv.of_image hgood' (by rw [hvms, h.vms img hs]) (fun c hc => ?_) h.unsent
      rw [hclones]
      exact h.clones img hs c hc
  | release vmId failed =>
    obtain ⟨hgood', hvms, hclones⟩ := good_releaseImage hgood vmId failed fun hst => by
      by_cases hbusy : img.runningVms ≠ 0 ∨ img.cloningOps ≠ 0
      · exact herror hst hbusy
      · rw [hgood.empty (by omega)]
        exact Finset.notMem_empty vmId
    refine Inv.of_image hgood' (by rw [hvms, h.vms img hs]) (fun c hc => ?_) h.unsent
    rw [hclones]
    exact h.clones img hs c hc
  | setClone ot newId =>
    rcases he : setCloneState img ot newId with - | img'
    · simpa only [handle, he] using h
    · obtain ⟨hgood', hvms, hnew, hclones⟩ := good_setCloneState hgood he
      simp only [handle, he]
      refine Inv.of_image hgood' (by rw [hvms, h.vms img hs]) (fun c hc => ?_) h.unsent
      rcases Finset.mem_insert.mp hc with rfl | hc
      · exact hnew
      · exact hclones c.1 (h.clones img hs c hc)
  | releaseCloning ot cloneOid =>
    obtain ⟨hgood', hvms, hclones⟩ := good_releaseCloningResource hgood ot cloneOid
    refine Inv.of_image hgood' (by rw [hvms, h.vms img hs]) (fun c hc => ?_) h.unsent
    obtain ⟨hne, hc⟩ := Finset.mem_erase.mp hc
    exact hclones c.1 c.2 hne (h.clones img hs c hc)
  | enable toEnable =>
    refine h.put hs (keeps_enableImage hgood fun hst hbusy => ?_)
    have hcare := herror hst hbusy
    cases toEnable
    · exact absurd hcare id
    · exact ⟨rfl, hcare (by simp [unlocks, hgood.type])⟩
  | persistent persis => exact h.put hs (keeps_persistent hgood herror)
  | delete force activeBackup =>
    have hforced : Keeps img { img with forceDelete := img.forceDelete || force } :=
      ⟨⟨hgood.running, hgood.cloning, hgood.type, hgood.disk, hgood.fits, hgood.single⟩, rfl,
        fun ot => by cases ot <;> rfl⟩
    rcases deleteImage_cases hforced.good activeBackup fun hst => by
      have hfree : ¬ (img.runningVms ≠ 0 ∨ img.cloningOps ≠ 0) := herror hst
      exact ⟨not_not.mp fun hr => hfree (Or.inl hr), not_not.mp fun hc => hfree (Or.inr hc)⟩ with hd | ⟨⟨hr, hc⟩, hd | ⟨img', hd, hk⟩⟩
    · simp only [handle, hd]
      exact h.keeps hs hforced
    · simp only [handle, hd, h.not_inUse hs hr hc, Bool.or_false]
      exact h.drop
    · simp only [handle, hd, h.not_inUse hs hr hc, Bool.or_false]
      exact (h.keeps hs hforced).keeps rfl hk
  | lockSnapshot => exact h.put hs (keeps_lockSnapshot hgood)
  | setSnapshots snapshots => exact h.keeps hs (keeps_setImageSnapshots hgood snapshots)
  | register =>
    refine h.put hs fun img' hsome => ?_
    obtain ⟨hsource, hsome⟩ := Option.ite_none_right_eq_some.mp hsome
    cases hsome
    exact hgood.keeps_setStateUnlock fun hst hbusy => herror hst hbusy hsource
  | cp r =>
    exact h.keeps hs (keeps_cpReport hgood fun hr hst hbusy => herror hst hbusy (decide_eq_true hr))
  | mkfs r =>
    refine h.keeps hs (keeps_mkfsReport hgood fun hr hst hbusy => herror hst hbusy ?_)
    simp [unlocks, hr]
  | rm success =>
    rcases hrm : rmReport img success with - | img'
    · simpa only [handle, hrm] using h.drop
    · simpa only [handle, hrm] using h.keeps hs (keeps_rmReport hgood img' hrm)
  | snapshot snapshots =>
    exact h.keeps hs (keeps_snapshotReport hgood fun hst hbusy => herror hst hbusy rfl)
  | saveas success =>
    exact h.keeps hs (keeps_saveasReport hgood fun hr hst hbusy => herror hst hbusy hr)

end Run

theorem inv_start {type : ImageType} (htype : type ≠ .backup) (persistentImg shareable hasSource saving : Bool)
    (vmId : ℤ) : Inv (Usage.start (Image.insert type persistentImg shareable hasSource saving vmId)) := by
  unfold Image.insert
  rw [if_neg htype]
  refine Inv.of_image ⟨rfl, rfl, htype, fun _ => rfl, ⟨rfl, rfl⟩, fun _ _ => Int.zero_le_ofNat 1⟩ rfl ?_ rfl
  exact fun c hc => absurd hc (Finset.notMem_empty c)

/-- The invariant is what the three parts of `Protected` need. -/
theorem Inv.protected {s : Usage} (h : Inv s) : Protected s := by
  refine ⟨fun img hs vmId => ?_, fun img hs hp hshare v hv w hw => ?_, h.unsent⟩
  · rw [h.vms img hs]
  · have hone := (h.good img hs).single hp hshare
    rw [(h.good img hs).running, h.vms img hs] at hone
    exact Finset.card_le_one.mp (by exact_mod_cast hone) v hv w hw

/-- A new image. -/
def newImage (persistentImg : Bool) : Image := Image.insert .os persistentImg false false false 0

/-- An image that fails while a virtual machine uses it and is enabled before the machine releases it. -/
def carefulRun : List Event :=
  [.acquire 7 false, .cp .failure, .enable true, .release 7 false, .setClone .image 3, .releaseCloning .image 3,
    .acquire 8 true, .release 8 true, .enable true, .delete false false]

/-- The image fails while the machine 7 uses it, and the machine releases it. -/
def releasedInError : List Event := [.acquire 7 false, .cp .failure, .release 7 false]

/-- The same image is disabled, enabled and acquired by another machine. -/
def acquiredTwice : List Event :=
  [.acquire 7 false, .cp .failure, .enable false, .enable true, .acquire 8 false]

/-- The same image is deleted. -/
def deletedInError : List Event := [.acquire 7 false, .cp .failure, .delete false false]

end ImageManager
