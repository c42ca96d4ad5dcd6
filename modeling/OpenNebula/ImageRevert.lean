/-
# Reverting an image to one of its snapshots (`src/image/Image.cc`)

`Image::revert_snapshot` moves the active mark, gives the image the size of the snapshot and, in the
mode `LINEAR`, deletes the younger snapshots.  What it writes as `SIZE` in the quota template is taken
from the quotas of the owner, and it is what the image and its snapshots have lost
(`revertSnapshot_exact`).

Conventions of the embedding:

* An image is its size, its datastore and its snapshots.  The manager calls the function with a
  template without attributes.
* The sizes of an image and of its snapshots, and their sums, do not overflow 64 bits.
-/
import OpenNebula.SnapshotSizes

open TextNumber

namespace ImageRevert

/-- What a revert reads and changes of an `Image`. -/
structure Image where
  sizeMb : ℤ
  dsId : ℤ
  snapshots : Snapshots
  deriving DecidableEq, Repr

/-- What an image takes of its datastore. -/
def Image.usage (i : Image) : ℤ := i.sizeMb + i.snapshots.totalSize

/-! ## The revert -/

/-- A round of the loop over the younger snapshots: `delta_size`, the snapshots and the template. -/
def dropYounger (dsId : ℤ) (acc : ℤ × Snapshots × DatastoreDeltas) (id : ℤ) :
    ℤ × Snapshots × DatastoreDeltas :=
  let deltaSize := acc.1 + acc.2.1.snapshotSize id
  (deltaSize, acc.2.1.deleteSnapshot id, acc.2.2.replace (intText dsId) deltaSize)

/-- `Image::revert_snapshot`. -/
def Image.revertSnapshot (i : Image) (snapId : ℤ) (dsQuotas : DatastoreDeltas) :
    Image × DatastoreDeltas :=
  let snapshots := (i.snapshots.activeSnapshot snapId true).2
  let snapSize := snapshots.snapshotSize snapId
  let deltaSize := if snapSize ≠ i.sizeMb then i.sizeMb - snapSize else 0
  let dsQuotas' := if snapSize ≠ i.sizeMb then dsQuotas.add (intText i.dsId) deltaSize else dsQuotas
  let sizeMb := if snapSize ≠ i.sizeMb then snapSize else i.sizeMb
  if snapshots.orphans = .linear then
    let r := (snapshots.getYoungerSnapshots snapId).foldl (dropYounger i.dsId)
      (deltaSize, snapshots, dsQuotas')
    (⟨sizeMb, i.dsId, r.2.1⟩, r.2.2)
  else (⟨sizeMb, i.dsId, snapshots⟩, dsQuotas')

/-- The changes of an image: an operation on its snapshots, a revert, a new size. -/
inductive Op where
  | snapshots (op : Snapshots.Op)
  | revert (snapId : ℤ)
  | setSize (sizeMb : ℤ)

/-- The image after a change, if the tests of the change allow it. -/
def Image.step (i : Image) : Op → Option Image
  | .snapshots op => (i.snapshots.step op).map fun s => { i with snapshots := s }
  | .revert snapId => some (i.revertSnapshot snapId .empty).1
  | .setSize sizeMb => some { i with sizeMb }

/-- An image without snapshots. -/
def Image.new (sizeMb dsId : ℤ) (orphans : AllowOrphansMode) : Image :=
  ⟨sizeMb, dsId, Snapshots.new orphans⟩

/-! ## The loop -/

/-- The loop of the deletions is the one that adds up the sizes. -/
theorem foldl_dropYounger (dsId : ℤ) (ids : List ℤ) (acc : ℤ × Snapshots × DatastoreDeltas) :
    ((ids.foldl (dropYounger dsId) acc).1, (ids.foldl (dropYounger dsId) acc).2.1) =
      ids.foldl Snapshots.dropSnapshot (acc.1, acc.2.1) := by
  induction ids generalizing acc with
  | nil => rfl
  | cons id ids ih =>
    rw [List.foldl_cons, ih, List.foldl_cons]
    rfl

/-- The snapshots that the loop leaves in the mode `LINEAR`. -/
theorem dropYounger_linear (dsId : ℤ) (ids : List ℤ) (acc : ℤ × Snapshots × DatastoreDeltas)
    (hmode : acc.2.1.orphans = .linear) :
    (ids.foldl (dropYounger dsId) acc).2.1 =
      { acc.2.1 with pool := acc.2.1.pool.filter fun x => x.id ∉ ids } :=
  (congrArg Prod.snd (foldl_dropYounger dsId ids acc)).trans
    (Snapshots.dropSnapshots_linear ids (acc.1, acc.2.1) hmode)

/-- The template follows `delta_size`. -/
theorem sizeLeft_dropYounger (dsId : ℤ) (ids : List ℤ) (acc : ℤ × Snapshots × DatastoreDeltas)
    (h : acc.2.2.sizeLeft = acc.1) :
    (ids.foldl (dropYounger dsId) acc).2.2.sizeLeft = (ids.foldl (dropYounger dsId) acc).1 := by
  induction ids generalizing acc with
  | nil => exact h
  | cons id ids ih =>
    rw [List.foldl_cons]
    apply ih
    rw [dropYounger, DatastoreDeltas.sizeLeft_replace]

section Revert

variable {i : Image} {snapId : ℤ}

/-- What the revert does to the snapshots. -/
theorem revertSnapshot_snapshots (dsQuotas : DatastoreDeltas) :
    (i.revertSnapshot snapId dsQuotas).1.snapshots =
      if i.snapshots.orphans = .linear then
        { (i.snapshots.activeSnapshot snapId true).2 with
          pool := (i.snapshots.activeSnapshot snapId true).2.pool.filter fun x => x.id ≤ snapId }
      else (i.snapshots.activeSnapshot snapId true).2 := by
  unfold Image.revertSnapshot
  dsimp only
  rw [Snapshots.orphans_activeSnapshot]
  by_cases hmode : i.snapshots.orphans = .linear
  · rw [if_pos hmode, if_pos hmode]
    dsimp only
    rw [dropYounger_linear _ _ _ ((Snapshots.orphans_activeSnapshot snapId true).trans hmode)]
    dsimp only
    rw [Snapshots.filter_younger, Snapshots.orphans_activeSnapshot]
  · rw [if_neg hmode, if_neg hmode]

theorem revertSnapshot_sizeMb (dsQuotas : DatastoreDeltas) :
    (i.revertSnapshot snapId dsQuotas).1.sizeMb = i.snapshots.snapshotSize snapId := by
  have hsize : (if i.snapshots.snapshotSize snapId ≠ i.sizeMb then i.snapshots.snapshotSize snapId
      else i.sizeMb) = i.snapshots.snapshotSize snapId := by
    split_ifs with hne
    · rfl
    · exact (not_not.mp hne).symm
  unfold Image.revertSnapshot
  dsimp only
  rw [Snapshots.snapshotSize_activeSnapshot, hsize]
  split <;> rfl

/-- The charge of a revert: the size that the image loses, and the sizes of what is deleted. -/
theorem revertSnapshot_charge (h : (i.snapshots.pool.map DiskSnapshot.id).Nodup) :
    (i.revertSnapshot snapId .empty).2.sizeLeft =
      i.usage - (i.revertSnapshot snapId .empty).1.usage := by
  have hdelta : ∀ snapSize : ℤ, (if snapSize ≠ i.sizeMb then i.sizeMb - snapSize else 0) =
      i.sizeMb - snapSize := by
    intro snapSize
    split_ifs <;> omega
  have hadd : ∀ snapSize : ℤ, (if snapSize ≠ i.sizeMb then
      DatastoreDeltas.empty.add (intText i.dsId) (i.sizeMb - snapSize) else .empty).sizeLeft =
      i.sizeMb - snapSize := by
    intro snapSize
    split_ifs with hne
    · rfl
    · rw [DatastoreDeltas.sizeLeft_empty]
      omega
  rw [Image.usage, Image.usage, revertSnapshot_sizeMb]
  unfold Image.revertSnapshot
  dsimp only
  rw [Snapshots.snapshotSize_activeSnapshot, hdelta]
  split
  · dsimp only
    rw [sizeLeft_dropYounger _ _ _ (hadd _)]
    have hloop := foldl_dropYounger i.dsId
      ((i.snapshots.activeSnapshot snapId true).2.getYoungerSnapshots snapId)
      (i.sizeMb - i.snapshots.snapshotSize snapId, (i.snapshots.activeSnapshot snapId true).2,
        if i.snapshots.snapshotSize snapId ≠ i.sizeMb then DatastoreDeltas.empty.add (intText i.dsId)
          (i.sizeMb - i.snapshots.snapshotSize snapId) else .empty)
    have htotal := Snapshots.total_dropSnapshots
      ((i.snapshots.activeSnapshot snapId true).2.getYoungerSnapshots snapId)
      (i.sizeMb - i.snapshots.snapshotSize snapId, (i.snapshots.activeSnapshot snapId true).2)
      (by rw [Snapshots.ids_activeSnapshot]; exact h)
    rw [← hloop] at htotal
    dsimp only at htotal
    rw [Snapshots.totalSize_activeSnapshot] at htotal
    omega
  · dsimp only
    rw [hadd, Snapshots.totalSize_activeSnapshot]
    omega

end Revert

/-! ## Runs -/

theorem marked_revertSnapshot {i : Image} (h : i.snapshots.Marked) (snapId : ℤ)
    (dsQuotas : DatastoreDeltas) : (i.revertSnapshot snapId dsQuotas).1.snapshots.Marked := by
  have hactive := h.activeSnapshot snapId true
  rw [revertSnapshot_snapshots]
  split
  · exact ⟨hactive.ids.sublist (List.filter_sublist.map _),
      fun y hy => hactive.given y (List.mem_filter.mp hy).1, hactive.activeGiven,
      fun y hy => hactive.marks y (List.mem_filter.mp hy).1, hactive.next⟩
  · exact hactive

/-- Every change of an image keeps the marks of its snapshots. -/
theorem marked_step {i j : Image} {op : Op} (h : i.snapshots.Marked) (hstep : i.step op = some j) :
    j.snapshots.Marked := by
  cases op with
  | snapshots op =>
    obtain ⟨s, hs, rfl⟩ := Option.map_eq_some_iff.mp hstep
    exact h.step hs
  | revert snapId =>
    obtain rfl := Option.some.inj hstep
    exact marked_revertSnapshot h snapId .empty
  | setSize sizeMb =>
    obtain rfl := Option.some.inj hstep
    exact h

/-- **A revert is charged exactly.**  Whatever was done before to an image and its snapshots, the marks
follow the active snapshot.  The revert to a snapshot that is there gives the image its size, leaves in
the mode `LINEAR` the snapshots that are not younger and in the other modes all, changes nothing of
them but the mark, which is on the reverted snapshot, and charges what the image and its snapshots have
lost. -/
theorem revertSnapshot_exact :
    (∀ (sizeMb dsId : ℤ) (orphans : AllowOrphansMode) (i : Image),
      Transition.Run Image.step (Image.new sizeMb dsId orphans) i → i.snapshots.Marked) ∧
    ∀ i : Image, i.snapshots.Marked → ∀ x ∈ i.snapshots.pool,
      (i.revertSnapshot x.id .empty).1.sizeMb = i.snapshots.snapshotSize x.id ∧
      (i.revertSnapshot x.id .empty).1.snapshots.pool =
        (i.snapshots.pool.filter fun y => i.snapshots.orphans = .linear → y.id ≤ x.id).map
          (fun y => { y with active := decide (y.id = x.id) }) ∧
      (i.revertSnapshot x.id .empty).1.snapshots.active = x.id ∧
      (i.revertSnapshot x.id .empty).2.sizeLeft =
        i.usage - (i.revertSnapshot x.id .empty).1.usage := by
  constructor
  · intro sizeMb dsId orphans i hrun
    refine hrun.inv (P := fun j => j.snapshots.Marked) (Snapshots.marked_new orphans) ?_
    intro j op k hj _ hstep
    exact marked_step hj hstep
  · intro i hi x hx
    refine ⟨revertSnapshot_sizeMb _, ?_, ?_, revertSnapshot_charge hi.ids⟩
    · rw [revertSnapshot_snapshots]
      by_cases hmode : i.snapshots.orphans = .linear
      · rw [if_pos hmode]
        dsimp only
        rw [hi.pool_activeSnapshot hx, List.filter_map]
        congr 1
        refine List.filter_congr fun y _ => ?_
        rw [Function.comp_apply, decide_eq_decide]
        exact ⟨fun hle _ => hle, fun hle => hle hmode⟩
      · have hall : (i.snapshots.pool.filter fun y => i.snapshots.orphans = .linear → y.id ≤ x.id) =
            i.snapshots.pool := by
          rw [List.filter_eq_self]
          intro y _
          rw [decide_eq_true_eq]
          exact fun hlinear => absurd hlinear hmode
        rw [if_neg hmode, hi.pool_activeSnapshot hx, hall]
    · have hactive := Snapshots.active_activeSnapshot hx
      rw [revertSnapshot_snapshots]
      split <;> exact hactive

/-- An image of 30 MB with snapshots of 10, 20 and 30 MB. -/
def grown : Image :=
  ⟨30, 1, ⟨.linear, [⟨0, "first", 10, 0, -1, [], false⟩, ⟨1, "second", 20, 1, -1, [], false⟩,
    ⟨2, "third", 30, 2, -1, [], true⟩], 3, 2, -1⟩⟩

/-- Back to the first snapshot, the image is 20 MB smaller and has lost 50 MB of snapshots. -/
theorem revertSnapshot_grown :
    (grown.revertSnapshot 0 .empty).2.sizeLeft = 70 ∧
      grown.usage - (grown.revertSnapshot 0 .empty).1.usage = 70 ∧
      (grown.revertSnapshot 0 .empty).1.snapshots.active = 0 := by
  have hmarked : grown.snapshots.Marked := ⟨by decide, by decide, by decide, by decide, by decide⟩
  obtain ⟨-, -, hactive, hcharge⟩ := revertSnapshot_exact.2 grown hmarked
    ⟨0, "first", 10, 0, -1, [], false⟩ (by decide)
  have hvalue : (grown.revertSnapshot 0 .empty).2.sizeLeft = 70 := by decide
  exact ⟨hvalue, hcharge.symm.trans hvalue, hactive⟩

end ImageRevert
