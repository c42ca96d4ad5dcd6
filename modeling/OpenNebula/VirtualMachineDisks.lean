/-
# The images of the disks (`src/vm/VirtualMachineDisk.cc`, `src/image/ImagePool.cc`)

The disks of a virtual machine are made from images.  `get_images` acquires the images of all the disks of a
new virtual machine, `set_up_attach` the image of one more disk, a disk that is detached (or could not be
attached) gives its image back unless another disk has it, and `release_images` gives all of them back.  When
`get_images` or `set_up_attach` fails, it has to undo what it has done so far.

`held_of_reach` says that a virtual machine is in the set of an image exactly if one of its disks has it, and
that a call with an error leaves the sets as they were, in every run whose steps are `Careful`.  Three exits are
not: a duplicated `MOUNT_TAG` leaves an image acquired, a file system that cannot be attached stays acquired, and
an attach that fails after its image was acquired releases the image although another disk may have it.  The
fourth condition comes from the images themselves: an image in `ERROR` ignores a release.

Conventions of the embedding:

* An attribute that is missing is `none`, or the empty text if the code does not tell the two apart.  A number
  that cannot be read is missing.
* `image_id` is not set for a volatile disk.  What the variable has before is part of the call.
* The size of an image is changed by an event of its own.  Its snapshots, the quotas, the attributes that are
  inherited and those of a disk that are not read here are left out.
* The images change their states only by what is done here: the other operations are in `ImageManager`.
-/
import OpenNebula.ImageManager

open Transition ImageManager

namespace VirtualMachineDisks

/-! ## Images and disks -/

/-- The `TYPE` of a disk. -/
inductive Kind
  | swap
  | fs
  | filesystem
  | other
  deriving DecidableEq

/-- An image of the pool with what a disk takes from it: `filesystem` is its disk type, `clusters` are the
clusters of its datastore, `none` if that is gone. -/
structure PoolImage where
  image : Image
  size : ℤ
  filesystem : Bool
  devPrefix : String
  target : String
  mountTag : String
  clusters : Option (List ℤ)

abbrev Images := ℤ → Option PoolImage

/-- A disk: `imageUid` is `IMAGE_UID` or the user that `IMAGE_UNAME` names, and `unknownUser` says that there is
one of them without a user. -/
structure Disk where
  diskId : ℤ
  imageId : Option ℤ
  imageName : Option String
  imageUid : Option ℤ
  unknownUser : Bool
  kind : Kind
  size : Option ℤ
  target : String
  devPrefix : String
  mountTag : String
  clusterIds : List ℤ
  attach : Bool
  deriving DecidableEq

structure Context where
  diskId : ℤ
  target : String
  devPrefix : String
  deriving DecidableEq

structure Vm where
  disks : List Disk
  context : Option Context
  deriving DecidableEq

/-- The default prefix of devices, and the images by name and owner. -/
structure Conf where
  defaultDevPrefix : String
  imageOf : String → ℤ → Option ℤ

/-- The errors of `get_images` and `set_up_attach`. -/
inductive Error
  | image
  | size
  | datastore
  | volatileType
  | volatileSize
  | filesystemTwice
  | mountTag
  | target
  | hdDisks
  | sdDisks
  | filesystem
  | cluster
  deriving DecidableEq

namespace Disk

def isVolatile (d : Disk) : Bool := decide (d.kind = .swap ∨ d.kind = .fs)

def isFilesystem (d : Disk) : Bool := decide (d.kind = .filesystem)

/-- `get_uid`; -1 is `none`. -/
def getUid (d : Disk) (uid : ℤ) : Option ℤ :=
  if d.unknownUser ∨ d.imageUid.getD uid = -1 then none else some (d.imageUid.getD uid)

/-- The image that `IMAGE` names. -/
def named (conf : Conf) (d : Disk) (uid : ℤ) (name : String) : Option ℤ :=
  (d.getUid uid).bind (conf.imageOf name)

/-- `get_image_id`. -/
def getImageId (conf : Conf) (d : Disk) (uid : ℤ) : Option ℤ :=
  match d.imageId, d.imageName with
  | some iid, _ => some iid
  | none, some name => d.named conf uid name
  | none, none => none

end Disk

namespace Images

/-- `acquire_image` with an identifier. -/
def acquire (images : Images) (vmId iid : ℤ) (attach : Bool) : Option (Images × PoolImage) :=
  match images iid with
  | none => none
  | some p =>
    match acquireImage p.image vmId attach with
    | none => none
    | some img => some (Function.update images iid (some { p with image := img }), { p with image := img })

/-- `release_image`. -/
def release (images : Images) (vmId iid : ℤ) (failed : Bool) : Images :=
  match images iid with
  | none => images
  | some p => Function.update images iid (some { p with image := releaseImage p.image vmId failed })

/-- `release_image` for each of a list of images. -/
def releaseAll (images : Images) (vmId : ℤ) (failed : Bool) (ids : List ℤ) : Images :=
  ids.foldl (fun images iid => images.release vmId iid failed) images

/-- `set_image_size`. -/
def setImageSize (images : Images) (iid size : ℤ) : Images :=
  match images iid with
  | none => images
  | some p =>
    if (p.image.type = .os ∨ p.image.type = .datablock) ∧ p.image.state = .usedPers then
      Function.update images iid (some { p with size := size })
    else images

end Images

/-! ## `acquire_disk` -/

section AcquireDisk

variable (conf : Conf)

/-- The checks of `SIZE`. -/
def sizeRefused (d : Disk) (p : PoolImage) : Bool :=
  match d.size with
  | none => false
  | some size =>
    decide ((p.image.persistentImg = true ∧ size ≠ p.size) ∨ (p.image.type = .cdrom ∧ size ≠ p.size) ∨
      size < p.size)

/-- `Image::disk_attribute` and `Datastore::disk_attribute`. -/
def diskAttribute (d : Disk) (iid : ℤ) (p : PoolImage) (clusters : List ℤ) : Disk :=
  let kind : Kind := if p.image.type ≠ .cdrom ∧ p.filesystem then .filesystem else .other
  { d with
    devPrefix :=
      if d.devPrefix = "" ∧ ¬ (p.image.type = .cdrom ∨ p.image.type = .filesystem) then
        if p.devPrefix = "" then conf.defaultDevPrefix else p.devPrefix
      else d.devPrefix
    imageId := some iid
    kind := kind
    target := if d.target = "" then p.target else d.target
    mountTag :=
      if kind = .filesystem ∧ d.mountTag = "" then
        if p.mountTag = "" then "one-tag-" ++ toString iid else p.mountTag
      else d.mountTag
    clusterIds := clusters }

/-- A disk with its image, if it is not volatile, and the type of the image. -/
structure Acquired where
  disk : Disk
  imageId : Option ℤ
  imgType : ImageType

/-- `acquire_disk` for an image. -/
def acquireDiskImage (images : Images) (vmId : ℤ) (d : Disk) (diskId iid : ℤ) (attach : Bool) :
    Images × Except Error Acquired :=
  match images.acquire vmId iid attach with
  | none => (images, .error .image)
  | some (images', p) =>
    if sizeRefused d p then (images'.release vmId iid false, .error .size)
    else
      match p.clusters with
      | none => (images'.release vmId iid false, .error .datastore)
      | some clusters =>
        (images', .ok ⟨{ diskAttribute conf d iid p clusters with diskId := diskId }, some iid, p.image.type⟩)

/-- `acquire_disk` for a volatile disk. -/
def acquireVolatile (d : Disk) (diskId : ℤ) : Except Error Acquired :=
  if d.isVolatile = false then .error .volatileType
  else if d.size.getD 0 ≤ 0 then .error .volatileSize
  else
    let devPrefix := if d.devPrefix = "" then conf.defaultDevPrefix else d.devPrefix
    .ok ⟨{ d with devPrefix := devPrefix, diskId := diskId }, none, .datablock⟩

def acquireDisk (images : Images) (vmId : ℤ) (d : Disk) (diskId uid : ℤ) (attach : Bool) :
    Images × Except Error Acquired :=
  match d.imageId, d.imageName with
  | some iid, _ => acquireDiskImage conf images vmId d diskId iid attach
  | none, some name =>
    match d.named conf uid name with
    | some iid => acquireDiskImage conf images vmId d diskId iid attach
    | none => (images, .error .image)
  | none, none => (images, acquireVolatile conf d diskId)

end AcquireDisk

/-! ## Targets -/

/-- The letters of a target: `a`, …, `z`, `aa`, … -/
def letters (index : ℕ) : List Char :=
  if 26 ≤ index then letters (index / 26 - 1) ++ [Char.ofNat (97 + index % 26)]
  else [Char.ofNat (97 + index)]
termination_by index
decreasing_by omega

def targetAt (devPrefix : String) (index : ℕ) : String := devPrefix ++ String.ofList (letters index)

/-- The first target from `index` on that is not used, in at most `fuel` more steps. -/
def targetFrom (devPrefix : String) (used : List String) : ℕ → ℕ → String
  | 0, index => targetAt devPrefix index
  | fuel + 1, index =>
    if targetAt devPrefix index ∈ used then targetFrom devPrefix used fuel (index + 1)
    else targetAt devPrefix index

/-- A target that is not used; there is one among the first `used.length + 1`. -/
def nextTarget (devPrefix : String) (used : List String) : String := targetFrom devPrefix used used.length 0

section Targets

variable {devPrefix : String} {used : List String}

theorem letters_lt {n : ℕ} (h : n < 26) : letters n = [Char.ofNat (97 + n)] := by
  rw [letters, if_neg (not_le.mpr h)]

theorem letters_ge {n : ℕ} (h : 26 ≤ n) : letters n = letters (n / 26 - 1) ++ [Char.ofNat (97 + n % 26)] := by
  rw [letters, if_pos h]

theorem letters_ne_nil (n : ℕ) : letters n ≠ [] := by
  rcases Nat.lt_or_ge n 26 with h | h
  · rw [letters_lt h]
    exact List.cons_ne_nil _ _
  · rw [letters_ge h]
    exact List.append_ne_nil_of_right_ne_nil _ (List.cons_ne_nil _ _)

/-- The letters are the twenty-six after each other. -/
theorem letter_injective : ∀ i < 26, ∀ j < 26, Char.ofNat (97 + i) = Char.ofNat (97 + j) → i = j := by
  decide

/-- Different indices have different letters: the last letter is the remainder, the others are the quotient. -/
theorem letters_injective : Function.Injective letters := by
  intro n
  induction n using Nat.strong_induction_on with
  | _ n ih =>
    intro m h
    rcases Nat.lt_or_ge n 26 with hn | hn <;> rcases Nat.lt_or_ge m 26 with hm | hm
    · rw [letters_lt hn, letters_lt hm] at h
      exact letter_injective n hn m hm (List.singleton_inj.mp h)
    · rw [letters_lt hn, letters_ge hm, ← List.nil_append [Char.ofNat (97 + n)]] at h
      exact absurd (List.append_inj' h rfl).1.symm (letters_ne_nil _)
    · rw [letters_ge hn, letters_lt hm, ← List.nil_append [Char.ofNat (97 + m)]] at h
      exact absurd (List.append_inj' h rfl).1 (letters_ne_nil _)
    · rw [letters_ge hn, letters_ge hm] at h
      obtain ⟨hq, hr⟩ := List.append_inj' h rfl
      have hquot := ih (n / 26 - 1) (by omega) hq
      have hrem := letter_injective (n % 26) (Nat.mod_lt n (by decide)) (m % 26) (Nat.mod_lt m (by decide))
        (List.singleton_inj.mp hr)
      omega

theorem targetAt_injective : Function.Injective (targetAt devPrefix) := by
  intro n m h
  unfold targetAt at h
  rw [String.append_right_inj, String.ofList_inj] at h
  exact letters_injective h

/-- The search ends with a target that is used only if all of them are. -/
theorem targetFrom_used (fuel : ℕ) :
    ∀ index, targetFrom devPrefix used fuel index ∈ used →
      ∀ i, i ≤ fuel → targetAt devPrefix (index + i) ∈ used := by
  induction fuel with
  | zero =>
    intro index h i hi
    rw [Nat.le_zero.mp hi]
    exact h
  | succ fuel ih =>
    intro index h i hi
    unfold targetFrom at h
    split at h
    · rename_i hused
      cases i with
      | zero => exact hused
      | succ i =>
        have hnext := ih (index + 1) h i (Nat.succ_le_succ_iff.mp hi)
        rwa [Nat.add_assoc, Nat.add_comm 1 i] at hnext
    · rename_i hfree
      exact absurd h hfree

/-- **The target that a disk gets is not used**: there are more targets than used ones. -/
theorem nextTarget_notMem (devPrefix : String) (used : List String) : nextTarget devPrefix used ∉ used := by
  intro h
  have hall := targetFrom_used used.length 0 h
  have hsub : (List.range (used.length + 1)).map (targetAt devPrefix) ⊆ used := by
    intro target htarget
    obtain ⟨i, hi, rfl⟩ := List.mem_map.mp htarget
    have hused := hall i (Nat.lt_succ_iff.mp (List.mem_range.mp hi))
    rwa [Nat.zero_add] at hused
  have hnodup : ((List.range (used.length + 1)).map (targetAt devPrefix)).Nodup :=
    List.nodup_range.map targetAt_injective
  have hle := (List.subperm_of_subset hnodup hsub).length_le
  rw [List.length_map, List.length_range] at hle
  omega

end Targets

/-- `assign_disk_targets`: the targets of the disks in the queue, and all that are used then. -/
def assignDiskTargets (queue : List (String × ℕ)) (used : List String) : List (ℕ × String) × List String :=
  queue.foldl (fun r q => (r.1 ++ [(q.2, nextTarget q.1 r.2)], nextTarget q.1 r.2 :: r.2)) ([], used)

/-! ## `get_images` -/

/-- The variables of the loop of `get_images`; the queues have the numbers of the disks. -/
structure Loop where
  images : Images
  disks : List Disk
  imageId : ℤ
  acquiredImages : List ℤ
  usedTargets : List String
  mountTags : List String
  osDisk : List (String × ℕ)
  cdromDisks : List (String × ℕ)
  datablockDisks : List (String × ℕ)
  hdDisks : ℕ
  sdDisks : ℕ

namespace Loop

def start (images : Images) (imageId : ℤ) : Loop := ⟨images, [], imageId, [], [], [], [], [], [], 0, 0⟩

/-- The disk has been acquired. -/
def acquired (l : Loop) (images : Images) (a : Acquired) : Loop :=
  { l with images := images, imageId := a.imageId.getD l.imageId }

/-- The disk is one of the disks of the virtual machine. -/
def add (l : Loop) (a : Acquired) : Loop :=
  { l with
    disks := l.disks ++ [a.disk]
    acquiredImages := l.acquiredImages ++ [l.imageId]
    mountTags := if a.imgType = .filesystem then a.disk.mountTag :: l.mountTags else l.mountTags }

/-- The disk waits for a target. -/
def queue (l : Loop) (imgType : ImageType) (devPrefix : String) (n : ℕ) : Loop :=
  match imgType with
  | .os =>
    if l.osDisk = [] then { l with osDisk := [(devPrefix, n)] }
    else { l with datablockDisks := l.datablockDisks ++ [(devPrefix, n)] }
  | .cdrom => { l with cdromDisks := l.cdromDisks ++ [(devPrefix, n)] }
  | .datablock => { l with datablockDisks := l.datablockDisks ++ [(devPrefix, n)] }
  | _ => l

/-- The numbers of disks of some prefixes. -/
def count (l : Loop) (devPrefix : String) : Loop :=
  { l with
    sdDisks := if devPrefix = "sd" then l.sdDisks + 1 else l.sdDisks
    hdDisks := if devPrefix = "hd" then l.hdDisks + 1 else l.hdDisks }

end Loop

/-- A file system with a `MOUNT_TAG` that another disk has. -/
def duplicatedMountTag (l : Loop) (a : Acquired) : Bool :=
  decide (a.imgType = .filesystem ∧ a.disk.mountTag ≠ "" ∧ a.disk.mountTag ∈ l.mountTags)

section GetImages

variable (conf : Conf)

def cdromDevPrefix (isQ35 : Bool) : String := if isQ35 then "sd" else "hd"

/-- What the loop does with a disk that has been acquired. -/
def addDisk (isQ35 : Bool) (l : Loop) (a : Acquired) : Except (Error × Loop) Loop :=
  if a.imgType = .filesystem ∧ l.imageId ∈ l.acquiredImages then .error (.filesystemTwice, l)
  else if duplicatedMountTag l a then .error (.mountTag, l)
  else
    let l' := l.add a
    if a.disk.target ≠ "" then
      if a.disk.target ∈ l.usedTargets then .error (.target, l')
      else .ok (Loop.count { l' with usedTargets := a.disk.target :: l.usedTargets } a.disk.devPrefix)
    else
      let devPrefix :=
        if a.imgType = .cdrom ∧ a.disk.devPrefix = "" then cdromDevPrefix isQ35 else a.disk.devPrefix
      .ok ((l'.queue a.imgType devPrefix l.disks.length).count devPrefix)

/-- The body of the loop. -/
def getDisk (vmId uid : ℤ) (isQ35 : Bool) (l : Loop) (d : Disk) : Except (Error × Loop) Loop :=
  match acquireDisk conf l.images vmId d l.disks.length uid false with
  | (images, .error e) => .error (e, { l with images := images })
  | (images, .ok a) => addDisk isQ35 (l.acquired images a) a

def getDisks (vmId uid : ℤ) (isQ35 : Bool) : Loop → List Disk → Except (Error × Loop) Loop
  | l, [] => .ok l
  | l, d :: ds =>
    match getDisk conf vmId uid isQ35 l d with
    | .ok l' => getDisks vmId uid isQ35 l' ds
    | .error e => .error e

/-- The targets that have been assigned. -/
def setTargets (assigned : List (ℕ × String)) (disks : List Disk) : List Disk :=
  disks.mapIdx fun n d =>
    match assigned.lookup n with
    | some target => { d with target := target }
    | none => d

/-- What follows the loop: the context disk gets the number after the disks. -/
def assignTargets (isQ35 : Bool) (l : Loop) (context : Option Context) : Except Error Vm :=
  if 4 < l.hdDisks ∧ isQ35 = false then .error .hdDisks
  else if 256 < l.sdDisks then .error .sdDisks
  else
    let os := assignDiskTargets l.osDisk l.usedTargets
    match context with
    | none =>
      let cdroms := assignDiskTargets l.cdromDisks os.2
      let datablocks := assignDiskTargets l.datablockDisks cdroms.2
      .ok ⟨setTargets (os.1 ++ cdroms.1 ++ datablocks.1) l.disks, none⟩
    | some ctx =>
      if ctx.target ≠ "" ∧ ctx.target ∈ os.2 then .error .target
      else
        let devPrefix := if ctx.devPrefix = "" then cdromDevPrefix isQ35 else ctx.devPrefix
        let cdroms :=
          if ctx.target ≠ "" then assignDiskTargets l.cdromDisks (ctx.target :: os.2)
          else assignDiskTargets (l.cdromDisks ++ [(devPrefix, l.disks.length)]) os.2
        let datablocks := assignDiskTargets l.datablockDisks cdroms.2
        .ok ⟨setTargets (os.1 ++ cdroms.1 ++ datablocks.1) l.disks,
          some ⟨l.disks.length, (cdroms.1.lookup l.disks.length).getD ctx.target, ctx.devPrefix⟩⟩

/-- `get_images`; `imageId` is what the variable has at the beginning. -/
def getImages (images : Images) (vmId uid : ℤ) (disks : List Disk) (context : Option Context) (isQ35 : Bool)
    (imageId : ℤ) : Images × Except Error Vm :=
  match getDisks conf vmId uid isQ35 (Loop.start images imageId) disks with
  | .error (e, l) => (l.images.releaseAll vmId false l.acquiredImages, .error e)
  | .ok l =>
    match assignTargets isQ35 l context with
    | .error e => (l.images.releaseAll vmId false l.acquiredImages, .error e)
    | .ok vm => (l.images, .ok vm)

end GetImages

/-! ## Attach, detach and release -/

section Attach

variable (conf : Conf)

namespace Vm

/-- The targets in use. -/
def usedTargets (vm : Vm) : List String :=
  (vm.disks.map Disk.target ++ (vm.context.map Context.target).toList).filter fun target => decide (target ≠ "")

def maxDiskId (vm : Vm) : ℤ :=
  (vm.disks.map Disk.diskId ++ (vm.context.map Context.diskId).toList).foldl max (-1)

/-- `get_image_ids`. -/
def getImageIds (vm : Vm) (uid : ℤ) : List ℤ := vm.disks.filterMap fun d => d.getImageId conf uid

end Vm

/-- The checks of `set_up_attach` after which the image is released. -/
def attachRefused (vm : Vm) (cid : ℤ) (d : Disk) : Option Error :=
  if d.target ≠ "" ∧ d.target ∈ vm.usedTargets then some .target
  else if d.clusterIds ≠ [] ∧ cid ∉ d.clusterIds then some .cluster
  else none

/-- `set_up_attach`; `imageId` is what the variable has at the beginning. -/
def setUpAttach (images : Images) (vmId uid cid : ℤ) (vm : Vm) (d : Disk) (imageId : ℤ) :
    Images × Except Error Vm :=
  match acquireDisk conf images vmId d (vm.maxDiskId + 1) uid true with
  | (images', .error e) => (images', .error e)
  | (images', .ok a) =>
    if a.disk.isFilesystem then (images', .error .filesystem)
    else
      match attachRefused vm cid a.disk with
      | some e => (images'.release vmId (a.imageId.getD imageId) false, .error e)
      | none =>
        let target := if a.disk.target = "" then nextTarget a.disk.devPrefix vm.usedTargets else a.disk.target
        (images', .ok { vm with disks := vm.disks ++ [{ a.disk with target := target, attach := true }] })

/-- `clear_attach`. -/
def clearAttach : List Disk → List Disk
  | [] => []
  | d :: ds => if d.attach then { d with attach := false } :: ds else d :: clearAttach ds

/-- `set_attach` for a disk that is detached. -/
def setAttach (vm : Vm) (diskId : ℤ) : Vm :=
  { vm with
    disks := vm.disks.map fun d => if d.diskId = diskId ∧ d.isFilesystem = false then { d with attach := true } else d }

/-- `delete_attach_disk`: the image is not released if another disk has it. -/
def deleteAttachDisk (images : Images) (vmId uid : ℤ) (vm : Vm) : Images × Vm :=
  match vm.disks.find? Disk.attach with
  | none => (images, vm)
  | some d =>
    let vm' := { vm with disks := vm.disks.eraseP Disk.attach }
    match d.isVolatile, d.imageId with
    | false, some iid =>
      if iid ∈ vm'.getImageIds conf uid then (images, vm') else (images.release vmId iid false, vm')
    | _, _ => (images, vm')

/-- The images of disks, with repetitions. -/
def imageIds (disks : List Disk) : List ℤ := disks.filterMap Disk.imageId

/-- `release_images`. -/
def releaseImages (images : Images) (vmId : ℤ) (imageError : Bool) (vm : Vm) : Images :=
  images.releaseAll vmId imageError (imageIds vm.disks)

end Attach

/-! ## Calls -/

/-- The images and the virtual machines that are not `DONE`. -/
structure Cloud where
  images : Images
  vms : ℤ → Option Vm

inductive Call
  | getImages (vmId uid : ℤ) (disks : List Disk) (context : Option Context) (isQ35 : Bool) (imageId : ℤ)
  | setUpAttach (vmId uid cid : ℤ) (disk : Disk) (imageId : ℤ)
  | attached (vmId : ℤ)
  | setAttach (vmId diskId : ℤ)
  | deleteAttachDisk (vmId uid : ℤ)
  | releaseImages (vmId : ℤ) (imageError : Bool)
  | setImageSize (iid size : ℤ)

namespace Cloud

def put (s : Cloud) (vmId : ℤ) (images : Images) (vm : Option Vm) : Cloud :=
  ⟨images, Function.update s.vms vmId vm⟩

end Cloud

section Step

variable (conf : Conf)

/-- A call for a virtual machine: only `get_images` is for a new one.  With the error that is returned. -/
def handle (s : Cloud) : Call → Option (Cloud × Option Error)
  | .getImages vmId uid disks context isQ35 imageId =>
    match s.vms vmId with
    | some _ => none
    | none =>
      match getImages conf s.images vmId uid disks context isQ35 imageId with
      | (images, .ok vm) => some (s.put vmId images (some vm), none)
      | (images, .error e) => some (s.put vmId images none, some e)
  | .setUpAttach vmId uid cid disk imageId =>
    (s.vms vmId).map fun vm =>
      match setUpAttach conf s.images vmId uid cid vm disk imageId with
      | (images, .ok vm') => (s.put vmId images (some vm'), none)
      | (images, .error e) => (s.put vmId images (some vm), some e)
  | .attached vmId =>
    (s.vms vmId).map fun vm => (s.put vmId s.images (some { vm with disks := clearAttach vm.disks }), none)
  | .setAttach vmId diskId =>
    (s.vms vmId).map fun vm => (s.put vmId s.images (some (setAttach vm diskId)), none)
  | .deleteAttachDisk vmId uid =>
    (s.vms vmId).map fun vm =>
      let r := deleteAttachDisk conf s.images vmId uid vm
      (s.put vmId r.1 (some r.2), none)
  | .releaseImages vmId imageError =>
    (s.vms vmId).map fun vm => (s.put vmId (releaseImages s.images vmId imageError vm) none, none)
  | .setImageSize iid size => some ({ s with images := s.images.setImageSize iid size }, none)

def step (s : Cloud) (c : Call) : Option Cloud := (handle conf s c).map Prod.fst

/-! ## Careful calls -/

/-- The loop does not end with a duplicated `MOUNT_TAG`. -/
def mountTagsApart (vmId uid : ℤ) (isQ35 : Bool) : Loop → List Disk → Bool
  | _, [] => true
  | l, d :: ds =>
    (match acquireDisk conf l.images vmId d l.disks.length uid false with
      | (_, .error _) => true
      | (images, .ok a) =>
        decide ((l.acquired images a).imageId ∈ l.acquiredImages) || !duplicatedMountTag (l.acquired images a) a) &&
    match getDisk conf vmId uid isQ35 l d with
    | .ok l' => mountTagsApart vmId uid isQ35 l' ds
    | .error _ => true

/-- An attach is undone for an image that no other disk has, and a file system is refused if another disk has
it. -/
def CarefulAttach (images : Images) (vmId uid cid : ℤ) (vm : Vm) (d : Disk) (imageId : ℤ) : Prop :=
  match acquireDisk conf images vmId d (vm.maxDiskId + 1) uid true with
  | (_, .error e) => e = .size ∨ e = .datastore → ∀ iid ∈ d.getImageId conf uid, iid ∉ imageIds vm.disks
  | (_, .ok a) =>
    if a.disk.isFilesystem then ∀ iid ∈ a.imageId, iid ∈ imageIds vm.disks
    else (attachRefused vm cid a.disk).isSome → a.imageId.getD imageId ∉ imageIds vm.disks

instance (images : Images) (vmId uid cid : ℤ) (vm : Vm) (d : Disk) (imageId : ℤ) :
    Decidable (CarefulAttach conf images vmId uid cid vm d imageId) := by
  unfold CarefulAttach
  split <;> infer_instance

/-- The image is in `ERROR`. -/
def inError (images : Images) (iid : ℤ) : Bool :=
  match images iid with
  | some p => decide (p.image.state = .error)
  | none => false

def Careful (s : Cloud) (c : Call) : Prop :=
  match c with
  | .getImages vmId uid disks _ isQ35 imageId =>
    mountTagsApart conf vmId uid isQ35 (Loop.start s.images imageId) disks = true
  | .setUpAttach vmId uid cid d imageId =>
    ∀ vm ∈ s.vms vmId, CarefulAttach conf s.images vmId uid cid vm d imageId
  | .deleteAttachDisk vmId _ =>
    ∀ vm ∈ s.vms vmId, ∀ d ∈ vm.disks.find? Disk.attach, ∀ iid ∈ d.imageId,
      iid ∉ imageIds (vm.disks.eraseP Disk.attach) → inError s.images iid = false
  | .releaseImages vmId _ =>
    ∀ vm ∈ s.vms vmId, ∀ iid ∈ imageIds vm.disks, inError s.images iid = false
  | _ => True

instance (s : Cloud) (c : Call) : Decidable (Careful conf s c) := by
  unfold Careful
  split <;> infer_instance

end Step

/-! ## What a call does to the sets -/

/-- What may change in an image when the virtual machine `v` uses it or not. -/
structure Framed (v : ℤ) (p q : PoolImage) : Prop where
  type : q.image.type = p.image.type
  others : ∀ w, w ≠ v → (w ∈ q.image.vmCollection ↔ w ∈ p.image.vmCollection)
  good : Good p.image → Good q.image
  backup : p.image.type = .backup → q.image.vmCollection = p.image.vmCollection

/-- The same for all the images. -/
def Frame (v : ℤ) (images images' : Images) : Prop := ∀ iid, Option.Rel (Framed v) (images iid) (images' iid)

/-- The virtual machine is in the sets of the images of `A`. -/
def Uses (v : ℤ) (A : Set ℤ) (images : Images) : Prop :=
  ∀ iid p, images iid = some p → p.image.type ≠ .backup → (v ∈ p.image.vmCollection ↔ iid ∈ A)

/-- No image of the virtual machine is in `ERROR`. -/
def Calm (v : ℤ) (images : Images) : Prop :=
  ∀ iid p, images iid = some p → p.image.type ≠ .backup → v ∈ p.image.vmCollection → p.image.state ≠ .error

def GoodImages (images : Images) : Prop :=
  ∀ iid p, images iid = some p → p.image.type ≠ .backup → Good p.image

/-- The set of an image. -/
def running (images : Images) (iid : ℤ) : Finset ℤ := (images iid).elim ∅ fun p => p.image.vmCollection

section Frame

variable {v w iid : ℤ} {A B : Set ℤ} {images images' images'' : Images} {p q : PoolImage}

theorem Framed.refl (p : PoolImage) : Framed v p p := ⟨rfl, fun _ _ => Iff.rfl, id, fun _ => rfl⟩

theorem Framed.trans {r : PoolImage} (h : Framed v p q) (h' : Framed v q r) : Framed v p r :=
  ⟨h'.type.trans h.type, fun w hw => (h'.others w hw).trans (h.others w hw), fun hg => h'.good (h.good hg),
    fun hb => (h'.backup (h.type.trans hb)).trans (h.backup hb)⟩

theorem Frame.refl (images : Images) : Frame v images images := by
  intro iid
  cases images iid
  · exact Option.Rel.none
  · exact Option.Rel.some (Framed.refl _)

theorem Frame.trans (h : Frame v images images') (h' : Frame v images' images'') : Frame v images images'' := by
  intro iid
  have hiid := h iid
  have hiid' := h' iid
  cases hp : images iid <;> cases hq : images' iid <;> rw [hp, hq] at hiid
  · rw [hq] at hiid'
    exact hiid'
  · cases hiid
  · cases hiid
  · cases hr : images'' iid <;> rw [hq, hr] at hiid'
    · cases hiid'
    · cases hiid with
      | some hpq =>
        cases hiid' with
        | some hqr => exact Option.Rel.some (hpq.trans hqr)

theorem Frame.cases (h : Frame v images images') (hq : images' iid = some q) :
    ∃ p, images iid = some p ∧ Framed v p q := by
  have hiid := h iid
  rw [hq] at hiid
  cases hp : images iid <;> rw [hp] at hiid
  · cases hiid
  · cases hiid with
    | some hpq => exact ⟨_, rfl, hpq⟩

/-- Another image in the place of one. -/
theorem frame_update (hp : images iid = some p) (h : Framed v p q) :
    Frame v images (Function.update images iid (some q)) := by
  intro j
  rcases eq_or_ne j iid with rfl | hne
  · rw [Function.update_self, hp]
    exact Option.Rel.some h
  · rw [Function.update_of_ne hne]
    exact Frame.refl images j

theorem Frame.good (h : Frame v images images') (hgood : GoodImages images) : GoodImages images' := by
  intro iid q hq htype
  obtain ⟨p, hp, hpq⟩ := h.cases hq
  exact hpq.good (hgood iid p hp (hpq.type ▸ htype))

/-- The other virtual machines use the same images as before. -/
theorem Frame.uses (h : Frame v images images') (hw : w ≠ v) (huses : Uses w A images) : Uses w A images' := by
  intro iid q hq htype
  obtain ⟨p, hp, hpq⟩ := h.cases hq
  exact (hpq.others w hw).trans (huses iid p hp (hpq.type ▸ htype))

/-- The sets are the same if the virtual machine uses the same images as before. -/
theorem Frame.running_eq (h : Frame v images images') (huses : Uses v A images) (huses' : Uses v A images') :
    running images' = running images := by
  funext iid
  have hiid := h iid
  cases hp : images iid <;> cases hq : images' iid <;> rw [hp, hq] at hiid
  · rw [running, running, hp, hq]
  · cases hiid
  · cases hiid
  · rename_i p q
    cases hiid with
    | some hpq =>
      rw [running, running, hp, hq]
      show q.image.vmCollection = p.image.vmCollection
      by_cases hb : p.image.type = .backup
      · exact hpq.backup hb
      · apply Finset.ext
        intro w
        rcases eq_or_ne w v with rfl | hw
        · exact (huses' iid q hq (hpq.type ▸ hb)).trans (huses iid p hp hb).symm
        · exact hpq.others w hw

/-! ### Acquire and release -/

/-- An image that is acquired or released, in the pool. -/
theorem uses_update (hp : images iid = some p) (huses : Uses v A images)
    (hq : q.image.type ≠ .backup → (v ∈ q.image.vmCollection ↔ iid ∈ B)) (hAB : ∀ j, j ≠ iid → (j ∈ A ↔ j ∈ B)) :
    Uses v B (Function.update images iid (some q)) := by
  intro j r hr htype
  rcases eq_or_ne j iid with rfl | hne
  · rw [Function.update_self] at hr
    cases hr
    exact hq htype
  · rw [Function.update_of_ne hne] at hr
    exact (huses j r hr htype).trans (hAB j hne)

theorem calm_update (hcalm : Calm v images)
    (hq : q.image.type ≠ .backup → v ∈ q.image.vmCollection → q.image.state ≠ .error) :
    Calm v (Function.update images iid (some q)) := by
  intro j r hr
  rcases eq_or_ne j iid with rfl | hne
  · rw [Function.update_self] at hr
    cases hr
    exact hq
  · rw [Function.update_of_ne hne] at hr
    exact hcalm j r hr

/-- An image that can be acquired is not in `ERROR`, and is not a backup. -/
theorem acquireImage_cases {img img' : Image} {attach : Bool} (h : acquireImage img v attach = some img') :
    img.type.isDisk = true ∧ img'.state ≠ .error ∧ img'.type = img.type := by
  unfold acquireImage at h
  split at h
  · cases h
  · rename_i hdisk
    refine ⟨Bool.eq_true_of_not_eq_false hdisk, ?_⟩
    have hsame : (img.incRunning v).state = img.state := rfl
    cases hstate : img.state <;> rw [hstate] at h hsame
    case ready =>
      cases h
      refine ⟨?_, rfl⟩
      show (if _ then _ else _) ≠ _
      split <;> decide
    case locked =>
      obtain ⟨-, h⟩ := Option.ite_none_left_eq_some.mp h
      cases h
      refine ⟨?_, rfl⟩
      show (if _ then _ else _) ≠ _
      split <;> decide
    case usedPers =>
      obtain ⟨-, h⟩ := Option.ite_none_right_eq_some.mp h
      cases h
      exact ⟨hsame ▸ by decide, rfl⟩
    case used =>
      cases h
      exact ⟨hsame ▸ by decide, rfl⟩
    case lockedUsedPers =>
      obtain ⟨-, h⟩ := Option.ite_none_left_eq_some.mp h
      cases h
      exact ⟨hsame ▸ by decide, rfl⟩
    case lockedUsed =>
      obtain ⟨-, h⟩ := Option.ite_none_left_eq_some.mp h
      cases h
      exact ⟨hsame ▸ by decide, rfl⟩
    all_goals cases h

/-- `acquire_image` puts the virtual machine in the set. -/
theorem acquire_cases {attach : Bool} (hgood : GoodImages images)
    (h : images.acquire v iid attach = some (images', q)) :
    Frame v images images' ∧ images' iid = some q ∧ q.image.state ≠ .error ∧
      (Uses v A images → Uses v (insert iid A) images') ∧ (Calm v images → Calm v images') := by
  unfold Images.acquire at h
  split at h
  · cases h
  · rename_i p hp
    split at h
    · cases h
    · rename_i img himg
      obtain ⟨hdisk, hstate, htype⟩ := acquireImage_cases himg
      have hbackup : p.image.type ≠ .backup := by
        intro hb
        rw [hb] at hdisk
        exact absurd hdisk (by decide)
      obtain ⟨hgood', hvms, -⟩ := good_acquireImage (hgood iid p hp hbackup) himg
      cases h
      refine ⟨frame_update hp ⟨htype, fun w hw => ?_, fun _ => hgood', fun hb => absurd hb hbackup⟩,
        Function.update_self .., hstate, fun huses => ?_, fun hcalm => calm_update hcalm fun _ _ => hstate⟩
      · show w ∈ img.vmCollection ↔ _
        rw [hvms, Finset.mem_insert, or_iff_right hw]
      · refine uses_update hp huses (fun _ => ?_) fun j hj => ?_
        · show v ∈ img.vmCollection ↔ _
          rw [hvms]
          exact iff_of_true (Finset.mem_insert_self _ _) (Set.mem_insert _ _)
        · rw [Set.mem_insert_iff, or_iff_right hj]

theorem releaseImage_type (img : Image) (failed : Bool) : (releaseImage img v failed).type = img.type := by
  unfold releaseImage
  split
  · rfl
  · dsimp only
    split <;> (try split) <;> (try split) <;> rfl

theorem releaseImage_error {img : Image} (h : img.state = .error) (failed : Bool) :
    releaseImage img v failed = img := by
  unfold releaseImage
  rw [h, ite_self]

theorem releaseImage_backup {img : Image} (h : img.type = .backup) (failed : Bool) :
    releaseImage img v failed = img := by
  unfold releaseImage
  rw [h]
  rfl

/-- A release that is not ignored. -/
theorem releaseImage_erase {img : Image} (hgood : Good img) (hcalm : img.state = .error → v ∉ img.vmCollection)
    (failed : Bool) : (releaseImage img v failed).vmCollection = img.vmCollection.erase v :=
  (good_releaseImage hgood v failed hcalm).2.1

/-- `release_image` changes what the virtual machine uses at most. -/
theorem release_frame (hgood : GoodImages images) (v iid : ℤ) (failed : Bool) :
    Frame v images (images.release v iid failed) := by
  unfold Images.release
  split
  · exact Frame.refl images
  · rename_i p hp
    apply frame_update hp
    by_cases herror : p.image.state = .error
    · rw [releaseImage_error herror]
      exact Framed.refl p
    · refine ⟨releaseImage_type p.image failed, fun w hw => ?_, fun h => ?_, fun hb => ?_⟩
      · by_cases hb : p.image.type = .backup
        · rw [releaseImage_backup hb]
        · show w ∈ (releaseImage p.image v failed).vmCollection ↔ _
          rw [releaseImage_erase (hgood iid p hp hb) fun he => absurd he herror, Finset.mem_erase]
          exact and_iff_right hw
      · exact (good_releaseImage h v failed fun he => absurd he herror).1
      · rw [releaseImage_backup hb]

/-- `release_image` takes the virtual machine out of the set, unless the image is in `ERROR`. -/
theorem release_uses (hgood : GoodImages images) (huses : Uses v A images) (iid : ℤ)
    (hcalm : ∀ p, images iid = some p → p.image.type ≠ .backup → p.image.state = .error →
      v ∉ p.image.vmCollection) (failed : Bool) :
    Uses v (A \ {iid}) (images.release v iid failed) := by
  have hA : ∀ j, j ≠ iid → (j ∈ A ↔ j ∈ A \ {iid}) := fun j hj => (and_iff_left hj).symm
  unfold Images.release
  split
  · rename_i hnone
    intro j r hr htype
    rcases eq_or_ne j iid with rfl | hj
    · rw [hnone] at hr
      cases hr
    · exact (huses j r hr htype).trans (hA j hj)
  · rename_i p hp
    refine uses_update hp huses (fun hb => ?_) hA
    have hb' : p.image.type ≠ .backup := (releaseImage_type p.image failed).symm.trans_ne hb
    show v ∈ (releaseImage p.image v failed).vmCollection ↔ _
    rw [releaseImage_erase (hgood iid p hp hb') (hcalm p hp hb')]
    exact iff_of_false (Finset.notMem_erase v _) fun h => h.2 rfl

theorem release_calm (hgood : GoodImages images) (hcalm : Calm v images) (iid : ℤ) (failed : Bool) :
    Calm v (images.release v iid failed) := by
  unfold Images.release
  split
  · exact hcalm
  · rename_i p hp
    refine calm_update hcalm fun hb hmem => ?_
    have hb' : p.image.type ≠ .backup := (releaseImage_type p.image failed).symm.trans_ne hb
    have hmem' : v ∈ (releaseImage p.image v failed).vmCollection := hmem
    rw [releaseImage_erase (hgood iid p hp hb') fun he hv => hcalm iid p hp hb' hv he] at hmem'
    exact absurd hmem' (Finset.notMem_erase v _)

/-- Many releases. -/
theorem releaseAll_spec (failed : Bool) (ids : List ℤ) (hgood : GoodImages images) (hcalm : Calm v images)
    (huses : Uses v A images) :
    Frame v images (images.releaseAll v failed ids) ∧
      Uses v {j | j ∈ A ∧ j ∉ ids} (images.releaseAll v failed ids) := by
  induction ids generalizing images A with
  | nil =>
    refine ⟨Frame.refl images, fun iid p hp htype => (huses iid p hp htype).trans ?_⟩
    exact (and_iff_left List.not_mem_nil).symm
  | cons iid ids ih =>
    have hframe := release_frame hgood v iid failed
    have huses' := release_uses hgood huses iid (fun p hp hb he hv => hcalm iid p hp hb hv he) failed
    obtain ⟨hrest, huses''⟩ := ih (hframe.good hgood) (release_calm hgood hcalm iid failed) huses'
    refine ⟨hframe.trans hrest, fun j p hp htype => (huses'' j p hp htype).trans ?_⟩
    constructor
    · rintro ⟨⟨hA, hne⟩, hids⟩
      exact ⟨hA, fun h => (List.mem_cons.mp h).elim hne hids⟩
    · rintro ⟨hA, hids⟩
      exact ⟨⟨hA, fun h => hids (h ▸ List.mem_cons_self)⟩, fun h => hids (List.mem_cons_of_mem iid h)⟩

end Frame

/-! ### `acquire_disk` -/

/-- A disk that is volatile, or has its image. -/
def Settled (d : Disk) : Prop :=
  match d.imageId with
  | some _ => d.isVolatile = false
  | none => d.isVolatile = true ∧ d.imageName = none

section AcquireDisk

variable {conf : Conf} {v iid n uid : ℤ} {A : Set ℤ} {images images' : Images} {d : Disk} {a : Acquired}
  {attach : Bool} {e : Error}

theorem uses_congr {B : Set ℤ} (h : ∀ j, j ∈ A ↔ j ∈ B) (huses : Uses v A images) : Uses v B images :=
  fun iid p hp htype => (huses iid p hp htype).trans (h iid)

theorem uses_insert_diff (huses : Uses v (insert iid A \ {iid}) images) : Uses v (A \ {iid}) images :=
  uses_congr (fun _ => by rw [Set.insert_sdiff_of_mem _ (Set.mem_singleton iid)]) huses

/-- An error: what has been acquired is released. -/
theorem acquireDiskImage_error (hgood : GoodImages images) (huses : Uses v A images)
    (h : acquireDiskImage conf images v d n iid attach = (images', .error e)) :
    Frame v images images' ∧ (Calm v images → Calm v images') ∧
      (Uses v A images' ∨ (e = .size ∨ e = .datastore) ∧ Uses v (A \ {iid}) images') := by
  unfold acquireDiskImage at h
  split at h
  · cases h
    exact ⟨Frame.refl images, id, Or.inl huses⟩
  · rename_i images₁ p hacquire
    obtain ⟨hframe, hp, hstate, huses', hcalm⟩ := acquire_cases (A := A) hgood hacquire
    have hgood₁ := hframe.good hgood
    have hrelease : Frame v images (images₁.release v iid false) ∧
        (Calm v images → Calm v (images₁.release v iid false)) ∧
        Uses v (A \ {iid}) (images₁.release v iid false) := by
      refine ⟨hframe.trans (release_frame hgood₁ v iid false), fun h => release_calm hgood₁ (hcalm h) iid false,
        uses_insert_diff (release_uses hgood₁ (huses' huses) iid (fun q hq _ herror => ?_) false)⟩
      rw [hp] at hq
      cases hq
      exact absurd herror hstate
    split at h
    · obtain ⟨rfl, he⟩ := Prod.mk.inj h
      exact ⟨hrelease.1, hrelease.2.1, Or.inr ⟨Or.inl (Except.error.inj he).symm, hrelease.2.2⟩⟩
    · split at h
      · obtain ⟨rfl, he⟩ := Prod.mk.inj h
        exact ⟨hrelease.1, hrelease.2.1, Or.inr ⟨Or.inr (Except.error.inj he).symm, hrelease.2.2⟩⟩
      · cases (Prod.mk.inj h).2

theorem acquireDiskImage_ok (hgood : GoodImages images) (huses : Uses v A images)
    (h : acquireDiskImage conf images v d n iid attach = (images', .ok a)) :
    Frame v images images' ∧ (Calm v images → Calm v images') ∧ Uses v (insert iid A) images' ∧
      a.imageId = some iid ∧ a.disk.imageId = some iid ∧ a.disk.isVolatile = false ∧
      ∀ p, images' iid = some p → p.image.state ≠ .error := by
  unfold acquireDiskImage at h
  split at h
  · cases h
  · rename_i images₁ p hacquire
    obtain ⟨hframe, hp, hstate, huses', hcalm⟩ := acquire_cases (A := A) hgood hacquire
    split at h
    · cases (Prod.mk.inj h).2
    · split at h
      · cases (Prod.mk.inj h).2
      · obtain ⟨rfl, ha⟩ := Prod.mk.inj h
        obtain rfl := Except.ok.inj ha
        refine ⟨hframe, hcalm, huses' huses, rfl, rfl, ?_, fun q hq => ?_⟩
        · unfold Disk.isVolatile diskAttribute
          dsimp only
          split <;> rfl
        · rw [hp] at hq
          exact Option.some.inj hq ▸ hstate

/-- `acquire_disk` takes an image, or the disk is volatile, or its image is not found. -/
theorem acquireDisk_cases {r : Except Error Acquired}
    (h : acquireDisk conf images v d n uid attach = (images', r)) :
    (∃ iid ∈ d.getImageId conf uid, acquireDiskImage conf images v d n iid attach = (images', r)) ∨
      (images = images' ∧ (r = .error .image ∨
        (d.imageId = none ∧ d.imageName = none ∧ acquireVolatile conf d n = r))) := by
  unfold acquireDisk at h
  split at h
  · rename_i hid
    refine Or.inl ⟨_, ?_, h⟩
    rw [Disk.getImageId, hid]
    rfl
  · rename_i name hid hname
    split at h
    · rename_i iid hnamed
      refine Or.inl ⟨iid, ?_, h⟩
      rw [Disk.getImageId, hid, hname]
      exact hnamed
    · obtain ⟨rfl, rfl⟩ := Prod.mk.inj h
      exact Or.inr ⟨rfl, Or.inl rfl⟩
  · rename_i hid hname
    exact Or.inr ⟨(Prod.mk.inj h).1, Or.inr ⟨hid, hname, (Prod.mk.inj h).2⟩⟩

/-- An error of `acquire_disk`: the image is not acquired, or it is released. -/
theorem acquireDisk_error (hgood : GoodImages images) (huses : Uses v A images)
    (h : acquireDisk conf images v d n uid attach = (images', .error e)) :
    Frame v images images' ∧ (Calm v images → Calm v images') ∧
      (Uses v A images' ∨ ∃ iid ∈ d.getImageId conf uid, (e = .size ∨ e = .datastore) ∧
        Uses v (A \ {iid}) images') := by
  rcases acquireDisk_cases h with ⟨iid, hiid, h⟩ | ⟨rfl, -⟩
  · obtain ⟨hframe, hcalm, hcases⟩ := acquireDiskImage_error hgood huses h
    exact ⟨hframe, hcalm, hcases.imp_right fun hreleased => ⟨iid, hiid, hreleased⟩⟩
  · exact ⟨Frame.refl images, id, Or.inl huses⟩

/-- `acquire_disk` acquires the image of the disk, if it is not volatile. -/
theorem acquireDisk_ok (hgood : GoodImages images) (huses : Uses v A images)
    (h : acquireDisk conf images v d n uid attach = (images', .ok a)) :
    Frame v images images' ∧ (Calm v images → Calm v images') ∧
      Uses v {j | j ∈ A ∨ j ∈ a.imageId} images' ∧ a.imageId = a.disk.imageId ∧ Settled a.disk ∧
      ∀ iid ∈ a.imageId, ∀ p, images' iid = some p → p.image.state ≠ .error := by
  rcases acquireDisk_cases h with ⟨iid, -, h⟩ | ⟨rfl, herror | ⟨hid, hname, h⟩⟩
  · obtain ⟨hframe, hcalm, huses', hid, hdisk, hvolatile, hstate⟩ := acquireDiskImage_ok hgood huses h
    refine ⟨hframe, hcalm, uses_congr (fun j => ?_) huses', hid.trans hdisk.symm, ?_, fun j hj => ?_⟩
    · rw [Set.mem_insert_iff, Set.mem_ofPred_eq, hid, Option.mem_some_iff, or_comm, eq_comm]
    · rw [Settled, hdisk]
      exact hvolatile
    · rw [hid] at hj
      exact Option.some.inj hj ▸ hstate
  · cases herror
  · unfold acquireVolatile at h
    split at h
    · cases h
    · rename_i hvolatile
      split at h
      · cases h
      · cases h
        refine ⟨Frame.refl images, id, uses_congr (fun j => ?_) huses, hid.symm, ?_, fun j hj => nomatch hj⟩
        · rw [Set.mem_ofPred_eq]
          exact (or_iff_left (Option.not_mem_none j)).symm
        · rw [Settled]
          dsimp only
          rw [hid]
          exact ⟨Bool.eq_true_of_not_eq_false hvolatile, hname⟩

end AcquireDisk

/-! ### The loop -/

section GetImages

variable {conf : Conf} {v uid : ℤ} {isQ35 : Bool} {images images₀ : Images} {l l' : Loop} {d : Disk} {a : Acquired}
  {e : Error}

/-- The disk and its image are in the lists. -/
structure Added (l : Loop) (a : Acquired) (l' : Loop) : Prop where
  images : l'.images = l.images
  disks : l'.disks = l.disks ++ [a.disk]
  acquiredImages : l'.acquiredImages = l.acquiredImages ++ [l.imageId]

theorem Added.queue (h : Added l a l') (imgType : ImageType) (devPrefix : String) (n : ℕ) :
    Added l a (l'.queue imgType devPrefix n) := by
  unfold Loop.queue
  split
  · split
    · exact ⟨h.images, h.disks, h.acquiredImages⟩
    · exact ⟨h.images, h.disks, h.acquiredImages⟩
  · exact ⟨h.images, h.disks, h.acquiredImages⟩
  · exact ⟨h.images, h.disks, h.acquiredImages⟩
  · exact h

theorem addDisk_cases (isQ35 : Bool) (l : Loop) (a : Acquired) :
    (∃ l', addDisk isQ35 l a = .ok l' ∧ Added l a l') ∨
      (∃ l', addDisk isQ35 l a = .error (.target, l') ∧ Added l a l') ∨
      (addDisk isQ35 l a = .error (.filesystemTwice, l) ∧ l.imageId ∈ l.acquiredImages) ∨
      (addDisk isQ35 l a = .error (.mountTag, l) ∧ duplicatedMountTag l a = true) := by
  have hadd : Added l a (l.add a) := ⟨rfl, rfl, rfl⟩
  unfold addDisk
  split
  · rename_i htwice
    exact Or.inr (Or.inr (Or.inl ⟨rfl, htwice.2⟩))
  · split
    · rename_i hdup
      exact Or.inr (Or.inr (Or.inr ⟨rfl, hdup⟩))
    · dsimp only
      split
      · split
        · exact Or.inr (Or.inl ⟨_, rfl, hadd⟩)
        · exact Or.inl ⟨_, rfl, rfl, rfl, rfl⟩
      · have hqueue := hadd.queue a.imgType
          (if a.imgType = .cdrom ∧ a.disk.devPrefix = "" then cdromDevPrefix isQ35 else a.disk.devPrefix)
          l.disks.length
        exact Or.inl ⟨_, rfl, hqueue.images, hqueue.disks, hqueue.acquiredImages⟩

/-- What the loop keeps: the virtual machine, which had no image before, has those of the disks so far, and they
are in `acquired_images`. -/
structure LoopInv (v : ℤ) (images₀ : Images) (l : Loop) : Prop where
  frame : Frame v images₀ l.images
  calm : Calm v l.images
  uses : Uses v {j | j ∈ imageIds l.disks} l.images
  acquired : ∀ j ∈ imageIds l.disks, j ∈ l.acquiredImages
  settled : ∀ d ∈ l.disks, Settled d

/-- The images that the virtual machine has are in `acquired_images`. -/
structure Undoable (v : ℤ) (images₀ : Images) (l : Loop) : Prop where
  frame : Frame v images₀ l.images
  calm : Calm v l.images
  uses : ∃ A, Uses v A l.images ∧ ∀ j ∈ A, j ∈ l.acquiredImages

theorem LoopInv.undoable (h : LoopInv v images₀ l) : Undoable v images₀ l :=
  ⟨h.frame, h.calm, _, h.uses, h.acquired⟩

theorem imageIds_append (ds : List Disk) (d : Disk) : imageIds (ds ++ [d]) = imageIds ds ++ d.imageId.toList := by
  unfold imageIds
  rw [List.filterMap_append]
  cases hd : d.imageId <;> simp [hd]

theorem LoopInv.added (hinv : LoopInv v images₀ l) (hframe : Frame v images₀ images) (hcalm : Calm v images)
    (huses : Uses v {j | j ∈ imageIds l.disks ∨ j ∈ a.imageId} images) (hid : a.imageId = a.disk.imageId)
    (hsettled : Settled a.disk) (h : Added (l.acquired images a) a l') : LoopInv v images₀ l' := by
  have hids : ∀ j, j ∈ imageIds l'.disks ↔ j ∈ imageIds l.disks ∨ j ∈ a.imageId := by
    intro j
    rw [h.disks, imageIds_append, List.mem_append, Option.mem_toList, hid]
    rfl
  refine ⟨h.images ▸ hframe, h.images ▸ hcalm, ?_, fun j hj => ?_, fun d hd => ?_⟩
  · rw [h.images]
    exact uses_congr (fun j => (hids j).symm) huses
  · rw [h.acquiredImages, List.mem_append]
    rcases (hids j).mp hj with hj | hj
    · exact Or.inl (hinv.acquired j hj)
    · right
      show j ∈ [a.imageId.getD l.imageId]
      rw [hj]
      exact List.mem_singleton.mpr rfl
  · rw [h.disks, List.mem_append] at hd
    rcases hd with hd | hd
    · exact hinv.settled d hd
    · exact List.mem_singleton.mp hd ▸ hsettled

/-- One disk more. -/
theorem getDisk_ok (hgood : GoodImages images₀) (hinv : LoopInv v images₀ l)
    (h : getDisk conf v uid isQ35 l d = .ok l') : LoopInv v images₀ l' := by
  unfold getDisk at h
  split at h
  · cases h
  · rename_i images a hacquire
    obtain ⟨hframe, hcalm, huses, hid, hsettled, -⟩ := acquireDisk_ok (hinv.frame.good hgood) hinv.uses hacquire
    rcases addDisk_cases isQ35 (l.acquired images a) a with ⟨l₁, he, hadd⟩ | ⟨l₁, he, -⟩ | ⟨he, -⟩ | ⟨he, -⟩ <;>
      rw [he] at h <;> cases h
    exact hinv.added (hinv.frame.trans hframe) (hcalm hinv.calm) huses hid hsettled hadd

/-- An error, unless the `MOUNT_TAG` is duplicated, can be undone. -/
theorem getDisk_error (hgood : GoodImages images₀) (hinv : LoopInv v images₀ l)
    (hapart : ∀ images a, acquireDisk conf l.images v d l.disks.length uid false = (images, .ok a) →
      (l.acquired images a).imageId ∈ l.acquiredImages ∨ duplicatedMountTag (l.acquired images a) a = false)
    (h : getDisk conf v uid isQ35 l d = .error (e, l')) : Undoable v images₀ l' := by
  have hgood' := hinv.frame.good hgood
  unfold getDisk at h
  split at h
  · rename_i images e' hacquire
    obtain ⟨hframe, hcalm, huses⟩ := acquireDisk_error hgood' hinv.uses hacquire
    obtain ⟨-, rfl⟩ := Prod.mk.inj (Except.error.inj h)
    refine ⟨hinv.frame.trans hframe, hcalm hinv.calm, ?_⟩
    rcases huses with huses | ⟨iid, -, -, huses⟩
    · exact ⟨_, huses, hinv.acquired⟩
    · exact ⟨_, huses, fun j hj => hinv.acquired j hj.1⟩
  · rename_i images a hacquire
    obtain ⟨hframe, hcalm, huses, hid, hsettled, -⟩ := acquireDisk_ok hgood' hinv.uses hacquire
    have hframe' := hinv.frame.trans hframe
    have hundo : (l.acquired images a).imageId ∈ l.acquiredImages →
        Undoable v images₀ (l.acquired images a) := by
      refine fun hmem => ⟨hframe', hcalm hinv.calm, _, huses, fun j hj => ?_⟩
      rcases hj with hj | hj
      · exact hinv.acquired j hj
      · have hlast : (l.acquired images a).imageId = j := by
          show a.imageId.getD l.imageId = j
          rw [hj]
          rfl
        exact hlast ▸ hmem
    rcases addDisk_cases isQ35 (l.acquired images a) a with ⟨l₁, he, -⟩ | ⟨l₁, he, hadd⟩ | ⟨he, hmem⟩ | ⟨he, hdup⟩ <;>
      rw [he] at h <;> cases h
    · exact (hinv.added hframe' (hcalm hinv.calm) huses hid hsettled hadd).undoable
    · exact hundo hmem
    · refine hundo ((hapart images a hacquire).resolve_right fun hfalse => ?_)
      exact absurd (hdup.symm.trans hfalse) (by decide)

/-- The loop, disk after disk. -/
theorem getDisks_spec (hgood : GoodImages images₀) (ds : List Disk) :
    ∀ {l : Loop}, LoopInv v images₀ l → mountTagsApart conf v uid isQ35 l ds = true →
      (∀ l', getDisks conf v uid isQ35 l ds = .ok l' → LoopInv v images₀ l') ∧
      ∀ e l', getDisks conf v uid isQ35 l ds = .error (e, l') → Undoable v images₀ l' := by
  induction ds with
  | nil =>
    intro l hinv _
    refine ⟨fun l' h => ?_, fun e l' h => ?_⟩
    · exact Except.ok.inj h ▸ hinv
    · cases h
  | cons d ds ih =>
    intro l hinv hapart
    unfold mountTagsApart at hapart
    obtain ⟨hapart, hrest⟩ := Bool.and_eq_true_iff.mp hapart
    have hapart' : ∀ images a, acquireDisk conf l.images v d l.disks.length uid false = (images, .ok a) →
        (l.acquired images a).imageId ∈ l.acquiredImages ∨
          duplicatedMountTag (l.acquired images a) a = false := by
      intro images a hacquire
      rw [hacquire] at hapart
      rcases Bool.or_eq_true_iff.mp hapart with hmem | hdup
      · exact Or.inl (of_decide_eq_true hmem)
      · exact Or.inr ((Bool.not_eq_true' _).mp hdup)
    unfold getDisks
    rcases hget : getDisk conf v uid isQ35 l d with ⟨e, l₁⟩ | l₁
    · refine ⟨fun l' h => ?_, fun e' l' h => ?_⟩
      · cases h
      · cases h
        exact getDisk_error hgood hinv hapart' hget
    · rw [hget] at hrest
      exact ih (getDisk_ok hgood hinv hget) hrest

theorem imageIds_mapIdx (ds : List Disk) :
    ∀ f : ℕ → Disk → Disk, (∀ n d, (f n d).imageId = d.imageId) → imageIds (ds.mapIdx f) = imageIds ds := by
  induction ds with
  | nil => exact fun f h => rfl
  | cons d ds ih =>
    intro f h
    have hrest := ih (fun n => f (n + 1)) fun n => h (n + 1)
    unfold imageIds at hrest ⊢
    rw [List.mapIdx_cons, List.filterMap_cons, List.filterMap_cons, h, hrest]

/-- The targets are assigned to the disks, which stay what they are otherwise. -/
theorem imageIds_setTargets (assigned : List (ℕ × String)) (ds : List Disk) :
    imageIds (setTargets assigned ds) = imageIds ds := by
  apply imageIds_mapIdx
  intro n d
  split <;> rfl

theorem settled_setTargets {assigned : List (ℕ × String)} {ds : List Disk} (h : ∀ d ∈ ds, Settled d) :
    ∀ d ∈ setTargets assigned ds, Settled d := by
  intro d hd
  obtain ⟨n, hn, rfl⟩ := List.mem_mapIdx.mp hd
  have hsettled := h ds[n] (List.getElem_mem hn)
  split
  · exact hsettled
  · exact hsettled

theorem assignTargets_ok {context : Option Context} {vm : Vm} (h : assignTargets isQ35 l context = .ok vm) :
    ∃ assigned, vm.disks = setTargets assigned l.disks := by
  unfold assignTargets at h
  split at h
  · cases h
  · split at h
    · cases h
    · dsimp only at h
      split at h
      · cases h
        exact ⟨_, rfl⟩
      · split at h
        · cases h
        · cases h
          exact ⟨_, rfl⟩

theorem loopInv_start (huses : Uses v ∅ images) (imageId : ℤ) : LoopInv v images (Loop.start images imageId) := by
  refine ⟨Frame.refl images, fun iid p hp htype hv => ?_, ?_, fun j hj => ?_, fun d hd => ?_⟩
  · exact absurd ((huses iid p hp htype).mp hv) (Set.notMem_empty iid)
  · exact uses_congr (fun j => iff_of_false (Set.notMem_empty j) List.not_mem_nil) huses
  · exact absurd hj List.not_mem_nil
  · exact absurd hd List.not_mem_nil

/-- The end of a call with an error. -/
theorem Undoable.released (h : Undoable v images₀ l) (hgood : GoodImages images₀) :
    Frame v images₀ (l.images.releaseAll v false l.acquiredImages) ∧
      Uses v ∅ (l.images.releaseAll v false l.acquiredImages) := by
  obtain ⟨A, huses, hacquired⟩ := h.uses
  obtain ⟨hframe, huses'⟩ :=
    releaseAll_spec false l.acquiredImages (h.frame.good hgood) h.calm huses
  refine ⟨h.frame.trans hframe, uses_congr (fun j => ?_) huses'⟩
  exact iff_of_false (fun hj => hj.2 (hacquired j hj.1)) (Set.notMem_empty j)

/-- **A new virtual machine has the images of its disks, or none.** -/
theorem getImages_spec {ds : List Disk} {imageId : ℤ} (context : Option Context) (hgood : GoodImages images)
    (huses : Uses v ∅ images)
    (hapart : mountTagsApart conf v uid isQ35 (Loop.start images imageId) ds = true) :
    match getImages conf images v uid ds context isQ35 imageId with
    | (images', .ok vm) =>
      Frame v images images' ∧ Uses v {j | j ∈ imageIds vm.disks} images' ∧ ∀ d ∈ vm.disks, Settled d
    | (images', .error _) => Frame v images images' ∧ Uses v ∅ images' := by
  obtain ⟨hok, herror⟩ := getDisks_spec hgood ds (loopInv_start huses imageId) hapart
  unfold getImages
  rcases hget : getDisks conf v uid isQ35 (Loop.start images imageId) ds with ⟨e, l⟩ | l
  · exact (herror e l hget).released hgood
  · have hinv := hok l hget
    dsimp only
    rcases hassign : assignTargets isQ35 l context with e | vm
    · exact hinv.undoable.released hgood
    · obtain ⟨assigned, hdisks⟩ := assignTargets_ok hassign
      refine ⟨hinv.frame, ?_, ?_⟩
      · rw [hdisks, imageIds_setTargets]
        exact hinv.uses
      · rw [hdisks]
        exact settled_setTargets hinv.settled

end GetImages

/-! ### Attach, detach and release -/

section Attach

variable {v cid imageId : ℤ} {images images' : Images} {vm : Vm} {d : Disk}

/-- **An attach acquires the image of the new disk, or changes nothing.** -/
theorem setUpAttach_spec {conf : Conf} {uid : ℤ} (hgood : GoodImages images) (huses : Uses v {j | j ∈ imageIds vm.disks} images)
    (hsettled : ∀ d ∈ vm.disks, Settled d) (hcareful : CarefulAttach conf images v uid cid vm d imageId) :
    match setUpAttach conf images v uid cid vm d imageId with
    | (images', .ok vm') =>
      Frame v images images' ∧ Uses v {j | j ∈ imageIds vm'.disks} images' ∧ ∀ d ∈ vm'.disks, Settled d
    | (images', .error _) => Frame v images images' ∧ Uses v {j | j ∈ imageIds vm.disks} images' := by
  unfold CarefulAttach at hcareful
  unfold setUpAttach
  rcases hacquire : acquireDisk conf images v d (vm.maxDiskId + 1) uid true with ⟨images', e | a⟩
  · rw [hacquire] at hcareful
    obtain ⟨hframe, -, huses' | ⟨iid, hiid, he, huses'⟩⟩ := acquireDisk_error hgood huses hacquire
    · exact ⟨hframe, huses'⟩
    · refine ⟨hframe, uses_congr (fun j => and_iff_left_of_imp fun hj heq => ?_) huses'⟩
      exact hcareful he iid hiid (heq ▸ hj)
  · rw [hacquire] at hcareful
    obtain ⟨hframe, -, huses', hid, hdisk, hstate⟩ := acquireDisk_ok hgood huses hacquire
    dsimp only at hcareful ⊢
    split at hcareful
    · rename_i hfs
      rw [if_pos hfs]
      exact ⟨hframe, uses_congr (fun j => or_iff_left_of_imp (hcareful j)) huses'⟩
    · rename_i hfs
      rw [if_neg hfs]
      rcases hrefused : attachRefused vm cid a.disk with - | e
      · refine ⟨hframe, ?_, fun d' hd' => ?_⟩
        · refine uses_congr (fun j => ?_) huses'
          show j ∈ imageIds vm.disks ∨ j ∈ a.imageId ↔ j ∈ imageIds (vm.disks ++ [_])
          rw [hid, imageIds_append, List.mem_append, Option.mem_toList]
          rfl
        · rcases List.mem_append.mp hd' with hd' | hd'
          · exact hsettled d' hd'
          · exact List.mem_singleton.mp hd' ▸ hdisk
      · have hout := hcareful (by rw [hrefused]; rfl)
        have hlast : ∀ j, j ∈ a.imageId → a.imageId.getD imageId = j := fun j hj => by
          rw [hj]
          rfl
        refine ⟨hframe.trans (release_frame (hframe.good hgood) v _ false), uses_congr (fun j => ?_)
          (release_uses (hframe.good hgood) huses' _ (fun p hp hb herror hv => ?_) false)⟩
        · constructor
          · rintro ⟨hj | hj, hne⟩
            · exact hj
            · exact absurd (hlast j hj).symm hne
          · exact fun hj => ⟨Or.inl hj, fun heq => hout (heq ▸ hj)⟩
        · rcases (huses' _ p hp hb).mp hv with hj | hj
          · exact hout hj
          · exact hstate _ hj p hp herror

theorem imageIds_map {f : Disk → Disk} (h : ∀ d, (f d).imageId = d.imageId) (ds : List Disk) :
    imageIds (ds.map f) = imageIds ds := by
  unfold imageIds
  rw [List.filterMap_map]
  exact List.filterMap_congr fun d _ => h d

/-- A flag is no part of the images. -/
theorem imageIds_setAttach (vm : Vm) (diskId : ℤ) : imageIds (setAttach vm diskId).disks = imageIds vm.disks := by
  apply imageIds_map
  intro d
  split <;> rfl

theorem settled_setAttach {diskId : ℤ} (h : ∀ d ∈ vm.disks, Settled d) :
    ∀ d ∈ (setAttach vm diskId).disks, Settled d := by
  intro d hd
  obtain ⟨d', hd', rfl⟩ := List.mem_map.mp hd
  have hsettled := h d' hd'
  split
  · exact hsettled
  · exact hsettled

theorem imageIds_clearAttach (ds : List Disk) : imageIds (clearAttach ds) = imageIds ds := by
  induction ds with
  | nil => rfl
  | cons d ds ih =>
    unfold clearAttach
    split
    · rfl
    · unfold imageIds at ih ⊢
      rw [List.filterMap_cons, List.filterMap_cons, ih]

theorem settled_clearAttach {ds : List Disk} (h : ∀ d ∈ ds, Settled d) : ∀ d ∈ clearAttach ds, Settled d := by
  induction ds with
  | nil => exact h
  | cons d ds ih =>
    have hd := h d List.mem_cons_self
    have hds : ∀ d' ∈ ds, Settled d' := fun d' hd' => h d' (List.mem_cons_of_mem d hd')
    unfold clearAttach
    split
    · intro d' hd'
      rcases List.mem_cons.mp hd' with rfl | hd'
      · exact hd
      · exact hds d' hd'
    · intro d' hd'
      rcases List.mem_cons.mp hd' with rfl | hd'
      · exact hd
      · exact ih hds d' hd'

/-- The disk that is removed and the others. -/
theorem mem_imageIds_eraseP {ds : List Disk} (h : ds.find? Disk.attach = some d) (j : ℤ) :
    j ∈ imageIds ds ↔ j ∈ imageIds (ds.eraseP Disk.attach) ∨ j ∈ d.imageId := by
  induction ds with
  | nil => cases h
  | cons d' ds ih =>
    rw [List.find?_cons] at h
    rw [List.eraseP_cons]
    have hmem : ∀ ds' : List Disk, j ∈ imageIds (d' :: ds') ↔ j ∈ d'.imageId ∨ j ∈ imageIds ds' := by
      intro ds'
      show j ∈ List.filterMap Disk.imageId (d' :: ds') ↔ _
      simp only [List.mem_filterMap, List.mem_cons, exists_eq_or_imp, Option.mem_def, imageIds]
    cases hattach : d'.attach
    · rw [hattach] at h
      rw [cond_false, hmem, hmem, ih h, or_assoc]
    · rw [hattach] at h
      cases h
      rw [cond_true, hmem, or_comm]

theorem getImageIds_eq (conf : Conf) (uid : ℤ) (h : ∀ d ∈ vm.disks, Settled d) : vm.getImageIds conf uid = imageIds vm.disks := by
  apply List.filterMap_congr
  intro d hd
  have hsettled := h d hd
  unfold Settled at hsettled
  unfold Disk.getImageId
  cases hid : d.imageId with
  | some iid => rfl
  | none =>
    rw [hid] at hsettled
    rw [hsettled.2]

/-- A disk that is removed gives its image back, unless another disk has it. -/
theorem deleteAttachDisk_spec (conf : Conf) (uid : ℤ) (hgood : GoodImages images)
    (huses : Uses v {j | j ∈ imageIds vm.disks} images)
    (hsettled : ∀ d ∈ vm.disks, Settled d)
    (hcareful : ∀ d ∈ vm.disks.find? Disk.attach, ∀ iid ∈ d.imageId,
      iid ∉ imageIds (vm.disks.eraseP Disk.attach) → inError images iid = false) :
    Frame v images (deleteAttachDisk conf images v uid vm).1 ∧
      Uses v {j | j ∈ imageIds (deleteAttachDisk conf images v uid vm).2.disks}
        (deleteAttachDisk conf images v uid vm).1 ∧
      ∀ d ∈ (deleteAttachDisk conf images v uid vm).2.disks, Settled d := by
  unfold deleteAttachDisk
  rcases hfind : vm.disks.find? Disk.attach with - | d
  · exact ⟨Frame.refl images, huses, hsettled⟩
  · have hrest : ∀ d' ∈ vm.disks.eraseP Disk.attach, Settled d' :=
      fun d' hd' => hsettled d' (List.mem_of_mem_eraseP hd')
    have hd := hsettled d (List.mem_of_find?_eq_some hfind)
    have hmem := mem_imageIds_eraseP hfind
    dsimp only
    unfold Settled at hd
    rcases hid : d.imageId with - | iid
    · rw [hid] at hd
      rw [hd.1]
      refine ⟨Frame.refl images, uses_congr (fun j => (hmem j).trans ?_) huses, hrest⟩
      rw [hid]
      exact or_iff_left (Option.not_mem_none j)
    · rw [hid] at hd
      rw [hd]
      dsimp only
      rw [getImageIds_eq conf uid hrest]
      split
      · rename_i hother
        refine ⟨Frame.refl images, uses_congr (fun j => (hmem j).trans (or_iff_left_of_imp fun hj => ?_)) huses,
          hrest⟩
        rw [hid] at hj
        exact Option.some.inj hj ▸ hother
      · rename_i hother
        have hcalm := hcareful d hfind iid hid hother
        refine ⟨release_frame hgood v iid false, uses_congr (fun j => ?_)
          (release_uses hgood huses iid (fun p hp _ herror => ?_) false), hrest⟩
        · constructor
          · rintro ⟨hj, hne⟩
            refine ((hmem j).mp hj).resolve_right fun hj' => hne ?_
            rw [hid] at hj'
            exact (Option.some.inj hj').symm
          · exact fun hj => ⟨(hmem j).mpr (Or.inl hj), fun heq => hother (heq ▸ hj)⟩
        · rw [inError, hp] at hcalm
          exact absurd herror (of_decide_eq_false hcalm)

/-- All the images are given back. -/
theorem releaseImages_spec (hgood : GoodImages images) (huses : Uses v {j | j ∈ imageIds vm.disks} images)
    (hcareful : ∀ iid ∈ imageIds vm.disks, inError images iid = false) (imageError : Bool) :
    Frame v images (releaseImages images v imageError vm) ∧ Uses v ∅ (releaseImages images v imageError vm) := by
  have hcalm : Calm v images := by
    intro iid p hp hb hv
    have hstate := hcareful iid ((huses iid p hp hb).mp hv)
    rw [inError, hp] at hstate
    exact of_decide_eq_false hstate
  obtain ⟨hframe, huses'⟩ := releaseAll_spec imageError (imageIds vm.disks) hgood hcalm huses
  exact ⟨hframe, uses_congr (fun j => iff_of_false (fun hj => hj.2 hj.1) (Set.notMem_empty j)) huses'⟩

end Attach

/-! ## Every run -/

/-- The images that a virtual machine has: those of its disks. -/
def imagesOf (vm : Option Vm) : Set ℤ := {j | ∃ m ∈ vm, j ∈ imageIds m.disks}

/-- What every call keeps. -/
structure Inv (s : Cloud) : Prop where
  good : GoodImages s.images
  uses : ∀ v, Uses v (imagesOf (s.vms v)) s.images
  settled : ∀ v, ∀ vm ∈ s.vms v, ∀ d ∈ vm.disks, Settled d

section Run

variable {conf : Conf} {s s' : Cloud} {v : ℤ} {images : Images}

theorem imagesOf_some (vm : Vm) (j : ℤ) : j ∈ imagesOf (some vm) ↔ j ∈ imageIds vm.disks := by
  constructor
  · rintro ⟨m, hm, hj⟩
    exact Option.some.inj hm ▸ hj
  · exact fun hj => ⟨vm, rfl, hj⟩

theorem imagesOf_none : imagesOf none = ∅ := by
  refine Set.eq_empty_of_forall_notMem ?_
  rintro j ⟨m, hm, -⟩
  cases hm

theorem Inv.uses_vm (h : Inv s) {vm : Vm} (hv : s.vms v = some vm) : Uses v {j | j ∈ imageIds vm.disks} s.images :=
  uses_congr (fun j => by rw [hv, imagesOf_some, Set.mem_ofPred_eq]) (h.uses v)

/-- A call for a virtual machine changes what that machine uses, and its disks with it. -/
theorem Inv.put (h : Inv s) (hframe : Frame v s.images images) {vm : Option Vm}
    (huses : Uses v (imagesOf vm) images) (hsettled : ∀ m ∈ vm, ∀ d ∈ m.disks, Settled d) :
    Inv (s.put v images vm) := by
  refine ⟨hframe.good h.good, fun w => ?_, fun w m hm => ?_⟩
  · show Uses w (imagesOf (Function.update s.vms v vm w)) images
    rcases eq_or_ne w v with rfl | hw
    · rw [Function.update_self]
      exact huses
    · rw [Function.update_of_ne hw]
      exact hframe.uses hw (h.uses w)
  · have hm' : Function.update s.vms v vm w = some m := hm
    rcases eq_or_ne w v with rfl | hw
    · rw [Function.update_self] at hm'
      exact hsettled m hm'
    · rw [Function.update_of_ne hw] at hm'
      exact h.settled w m hm'

theorem Inv.put_some (h : Inv s) (hframe : Frame v s.images images) {vm : Vm}
    (huses : Uses v {j | j ∈ imageIds vm.disks} images) (hsettled : ∀ d ∈ vm.disks, Settled d) :
    Inv (s.put v images (some vm)) := by
  refine h.put hframe (uses_congr (fun j => (imagesOf_some vm j).symm) huses) fun m hm => ?_
  exact Option.some.inj hm ▸ hsettled

theorem Inv.put_none (h : Inv s) (hframe : Frame v s.images images) (huses : Uses v ∅ images) :
    Inv (s.put v images none) :=
  h.put hframe (imagesOf_none ▸ huses) fun _ hm => nomatch hm

/-- The size of an image. -/
theorem setImageSize_cases {images : Images} {iid size j : ℤ} {q : PoolImage}
    (h : images.setImageSize iid size j = some q) : ∃ p, images j = some p ∧ q.image = p.image := by
  rcases hp : images iid with - | p
  · rw [Images.setImageSize, hp] at h
    exact ⟨q, h, rfl⟩
  · rw [Images.setImageSize, hp] at h
    dsimp only at h
    split at h
    · rcases eq_or_ne j iid with rfl | hne
      · rw [Function.update_self] at h
        exact ⟨p, hp, Option.some.inj h ▸ rfl⟩
      · rw [Function.update_of_ne hne] at h
        exact ⟨q, h, rfl⟩
    · exact ⟨q, h, rfl⟩

/-- A careful call keeps the invariant, and it leaves the sets as they are if it returns an error. -/
theorem inv_handle {c : Call} {e : Option Error} (h : Inv s) (hcareful : Careful conf s c)
    (hstep : handle conf s c = some (s', e)) : Inv s' ∧ (e.isSome → running s'.images = running s.images) := by
  cases c with
  | getImages vmId uid disks context isQ35 imageId =>
    rcases hnew : s.vms vmId with - | vm
    · have huses : Uses vmId ∅ s.images := by
        rw [← imagesOf_none, ← hnew]
        exact h.uses vmId
      have hspec := getImages_spec context h.good huses hcareful
      simp only [handle, hnew] at hstep
      rcases hget : getImages conf s.images vmId uid disks context isQ35 imageId with ⟨images, e' | vm⟩
      · rw [hget] at hspec hstep
        cases hstep
        exact ⟨h.put_none hspec.1 hspec.2, fun _ => hspec.1.running_eq huses hspec.2⟩
      · rw [hget] at hspec hstep
        cases hstep
        exact ⟨h.put_some hspec.1 hspec.2.1 hspec.2.2, fun herror => nomatch herror⟩
    · simp only [handle, hnew] at hstep
      cases hstep
  | setUpAttach vmId uid cid disk imageId =>
    obtain ⟨vm, hvm, hstep⟩ := Option.map_eq_some_iff.mp hstep
    have huses := h.uses_vm hvm
    have hsettled := h.settled vmId vm hvm
    have hspec := setUpAttach_spec h.good huses hsettled (hcareful vm hvm)
    rcases hattach : setUpAttach conf s.images vmId uid cid vm disk imageId with ⟨images, e' | vm'⟩
    · rw [hattach] at hspec hstep
      cases hstep
      exact ⟨h.put_some hspec.1 hspec.2 hsettled, fun _ => hspec.1.running_eq huses hspec.2⟩
    · rw [hattach] at hspec hstep
      cases hstep
      exact ⟨h.put_some hspec.1 hspec.2.1 hspec.2.2, fun herror => nomatch herror⟩
  | attached vmId =>
    obtain ⟨vm, hvm, hstep⟩ := Option.map_eq_some_iff.mp hstep
    cases hstep
    refine ⟨h.put_some (Frame.refl s.images) ?_ (settled_clearAttach (h.settled vmId vm hvm)),
      fun herror => nomatch herror⟩
    rw [imageIds_clearAttach]
    exact h.uses_vm hvm
  | setAttach vmId diskId =>
    obtain ⟨vm, hvm, hstep⟩ := Option.map_eq_some_iff.mp hstep
    cases hstep
    refine ⟨h.put_some (Frame.refl s.images) ?_ (settled_setAttach (h.settled vmId vm hvm)),
      fun herror => nomatch herror⟩
    rw [imageIds_setAttach]
    exact h.uses_vm hvm
  | deleteAttachDisk vmId uid =>
    obtain ⟨vm, hvm, hstep⟩ := Option.map_eq_some_iff.mp hstep
    obtain ⟨hframe, huses, hsettled⟩ := deleteAttachDisk_spec conf uid h.good (h.uses_vm hvm)
      (h.settled vmId vm hvm) (hcareful vm hvm)
    cases hstep
    exact ⟨h.put_some hframe huses hsettled, fun herror => nomatch herror⟩
  | releaseImages vmId imageError =>
    obtain ⟨vm, hvm, hstep⟩ := Option.map_eq_some_iff.mp hstep
    obtain ⟨hframe, huses⟩ := releaseImages_spec h.good (h.uses_vm hvm) (hcareful vm hvm) imageError
    cases hstep
    exact ⟨h.put_none hframe huses, fun herror => nomatch herror⟩
  | setImageSize iid size =>
    cases hstep
    refine ⟨⟨fun j q hq hb => ?_, fun w j q hq hb => ?_, h.settled⟩, fun herror => nomatch herror⟩
    · obtain ⟨p, hp, himage⟩ := setImageSize_cases hq
      exact himage ▸ h.good j p hp (himage ▸ hb)
    · obtain ⟨p, hp, himage⟩ := setImageSize_cases hq
      rw [himage] at hb ⊢
      exact h.uses w j p hp hb

/-- **A virtual machine is in the set of an image exactly if one of its disks has the image, and a call that
returns an error leaves the sets as they were**, in every run of careful calls that starts with images nobody
uses. -/
theorem held_of_reach (conf : Conf) {images : Images}
    (hfree : ∀ iid p, images iid = some p → p.image.type ≠ .backup → Good p.image ∧ p.image.vmCollection = ∅)
    {s : Cloud} (h : Reach (step conf) (Careful conf) ⟨images, fun _ => none⟩ s) :
    (∀ iid p, s.images iid = some p → p.image.type ≠ .backup → ∀ v, v ∈ p.image.vmCollection ↔
      ∃ vm ∈ s.vms v, ∃ d ∈ vm.disks, d.imageId = some iid) ∧
    ∀ c s' e, Careful conf s c → handle conf s c = some (s', some e) → running s'.images = running s.images := by
  have hinv : Inv s := by
    refine h.inv ⟨fun iid p hp hb => (hfree iid p hp hb).1, fun v iid p hp hb => ?_, fun v vm hvm => nomatch hvm⟩ ?_
    · rw [(hfree iid p hp hb).2]
      exact iff_of_false (Finset.notMem_empty v) (imagesOf_none ▸ Set.notMem_empty iid)
    · intro s c s' hinv hcareful hstep
      obtain ⟨⟨s₁, e⟩, hhandle, rfl⟩ := Option.map_eq_some_iff.mp hstep
      exact (inv_handle hinv hcareful hhandle).1
  refine ⟨fun iid p hp hb v => (hinv.uses v iid p hp hb).trans ?_, fun c s' e hcareful hstep => ?_⟩
  · simp only [imagesOf, imageIds, List.mem_filterMap, Set.mem_ofPred_eq]
  · exact (inv_handle hinv hcareful hstep).2 rfl

end Run

/-! ### Runs -/

/-- An image that nobody uses. -/
def newImage (type : ImageType) (persistentImg : Bool) : PoolImage :=
  ⟨(Image.insert type persistentImg true true false 0).setState .ready, 10, type = .filesystem, "vd", "", "data",
    some [0]⟩

def conf : Conf := ⟨"hd", fun _ _ => none⟩

/-- A disk of an image. -/
def diskOf (iid : ℤ) (target : String) : Disk :=
  ⟨0, some iid, none, none, false, .other, none, target, "", "", [], false⟩

/-- Two file systems, an image and a persistent image that is shareable. -/
def freeImages : Images := fun iid =>
  if iid = 1 ∨ iid = 2 then some (newImage .filesystem false)
  else if iid = 3 then some (newImage .os false)
  else if iid = 4 then some (newImage .datablock true)
  else none

def start : Cloud := ⟨freeImages, fun _ => none⟩

theorem free_freeImages : ∀ iid p, freeImages iid = some p → p.image.type ≠ .backup →
    Good p.image ∧ p.image.vmCollection = ∅ := by
  have hnew : ∀ type persistentImg, type ≠ .backup → Good (newImage type persistentImg).image ∧
      (newImage type persistentImg).image.vmCollection = ∅ := by
    intro type persistentImg htype
    unfold newImage Image.insert
    rw [if_neg htype]
    exact ⟨⟨rfl, rfl, htype, fun _ => rfl, ⟨rfl, rfl⟩, fun _ _ => Int.zero_le_ofNat 1⟩, rfl⟩
  intro iid p hp _
  unfold freeImages at hp
  split at hp
  · exact Option.some.inj hp ▸ hnew .filesystem false (by decide)
  · split at hp
    · exact Option.some.inj hp ▸ hnew .os false (by decide)
    · split at hp
      · exact Option.some.inj hp ▸ hnew .datablock true (by decide)
      · cases hp

/-- A virtual machine with two disks of one image: one of them is detached, the file systems cannot be used
twice. -/
def carefulRun : List Call :=
  [.getImages 7 0 [diskOf 3 "vda", diskOf 3 "vdb", diskOf 1 "vdc"] none false 0, .setAttach 7 1,
    .deleteAttachDisk 7 0, .setUpAttach 7 0 0 (diskOf 4 "vdb") 0, .attached 7,
    .getImages 8 0 [diskOf 1 "vda", diskOf 1 "vdb"] none false 0, .releaseImages 7 false]

theorem held_carefulRun :
    ∃ s, Reach (step conf) (Careful conf) start s ∧
      (∀ iid p, s.images iid = some p → p.image.type ≠ .backup → ∀ v, v ∈ p.image.vmCollection ↔
        ∃ vm ∈ s.vms v, ∃ d ∈ vm.disks, d.imageId = some iid) ∧
      ∀ c s' e, Careful conf s c → handle conf s c = some (s', some e) → running s'.images = running s.images := by
  have hrun : ∃ s, Reach (step conf) (Careful conf) start s := ⟨_, reach_of_runChecked carefulRun rfl⟩
  obtain ⟨s, hs⟩ := hrun
  exact ⟨s, hs, held_of_reach conf free_freeImages hs⟩

/-- Two virtual machines share an image, and one of them releases it with an error. -/
def sharedRun : List Call :=
  [.getImages 7 0 [diskOf 4 "vda"] none false 0, .getImages 8 0 [diskOf 4 "vda"] none false 0,
    .releaseImages 7 true, .releaseImages 8 false]

/-- A duplicated `MOUNT_TAG` and a file system that is attached leave an image acquired, an attach that fails
releases an image that another disk has, and a release in `ERROR` is lost. -/
theorem not_held :
    (∃ s, handle conf start (.getImages 7 0 [diskOf 1 "", diskOf 2 ""] none false 0) = some (s, some .mountTag) ∧
      (7 : ℤ) ∉ running start.images 2 ∧ (7 : ℤ) ∈ running s.images 2) ∧
    (∃ s s', Run (step conf) start s ∧
      handle conf s (.setUpAttach 7 0 0 (diskOf 1 "") 0) = some (s', some .filesystem) ∧
      (7 : ℤ) ∉ running s.images 1 ∧ (7 : ℤ) ∈ running s'.images 1) ∧
    (∃ s s', Run (step conf) start s ∧
      handle conf s (.setUpAttach 7 0 0 (diskOf 3 "vda") 0) = some (s', some .target) ∧
      (7 : ℤ) ∈ running s.images 3 ∧ (7 : ℤ) ∉ running s'.images 3) ∧
    ∃ s, Run (step conf) start s ∧ (8 : ℤ) ∈ running s.images 4 ∧ s.vms 8 = none :=
  ⟨⟨_, rfl, by decide, by decide⟩,
    ⟨_, _, run_of_runEvents [.getImages 7 0 [diskOf 3 "vda"] none false 0] rfl, rfl, by decide, by decide⟩,
    ⟨_, _, run_of_runEvents [.getImages 7 0 [diskOf 3 "vda"] none false 0] rfl, rfl, by decide, by decide⟩,
    ⟨_, run_of_runEvents sharedRun rfl, by decide, rfl⟩⟩

end VirtualMachineDisks
