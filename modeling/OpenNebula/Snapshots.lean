/-
# Snapshots of a disk (`src/vm/Snapshots.cc`)

The snapshots of a disk are a list of entries with an identifier, the identifier of the parent, the
list of the children and a mark for the active one.  How a new snapshot gets its parent, and how the
tree is mended after a deletion, depends on the `ALLOW_ORPHANS` mode.  A deletion is tested before
(`testDelete` for a machine, `testDeleteImage` for an image).

Conventions of the embedding:

* The template and the map by identifier share their entries: `pool` is the list of them, and
  `getSnapshot` looks for an identifier.
* `CHILDREN` is the list of the numbers in its text.  It is empty when the attribute is not there.
* Identifiers do not overflow.
-/
import OpenNebula.ObjectCollection
import OpenNebula.Transition

/-- `Snapshots::AllowOrphansMode`. -/
inductive AllowOrphansMode where
  | allow | deny | mixed | format | linear
  deriving DecidableEq, Repr

/-- An entry of the list. -/
structure DiskSnapshot where
  id : ℤ
  name : String
  size : ℤ
  date : ℤ
  parent : ℤ
  children : List ℤ
  active : Bool
  deriving DecidableEq, Repr

/-- `Snapshots`. -/
structure Snapshots where
  orphans : AllowOrphansMode
  pool : List DiskSnapshot
  nextSnapshot : ℤ
  active : ℤ
  currentBase : ℤ
  deriving DecidableEq, Repr

namespace Snapshots

/-! ## Operations -/

/-- `Snapshots::Snapshots`. -/
def new (orphans : AllowOrphansMode) : Snapshots := ⟨orphans, [], 0, -1, -1⟩

/-- `Snapshots::get_snapshot`. -/
def getSnapshot (s : Snapshots) (id : ℤ) : Option DiskSnapshot := s.pool.find? fun x => x.id = id

/-- A change of the entry with an identifier. -/
def modify (pool : List DiskSnapshot) (id : ℤ) (f : DiskSnapshot → DiskSnapshot) : List DiskSnapshot :=
  pool.map fun x => if x.id = id then f x else x

/-- The new snapshot is a child of `parentId`. -/
def addChild (s : Snapshots) (parentId : ℤ) : List DiskSnapshot :=
  modify s.pool parentId fun x => { x with children := x.children ++ [s.nextSnapshot] }

/-- `Snapshots::create_snapshot`, with `add_child_deny` and `add_child_mixed`.  It returns the new
identifier, or -1. -/
def createSnapshot (s : Snapshots) (name : String) (sizeMb date : ℤ) : ℤ × Snapshots :=
  let entry (parent : ℤ) : DiskSnapshot := ⟨s.nextSnapshot, name, sizeMb, date, parent, [], false⟩
  let result (pool : List DiskSnapshot) (parent : ℤ) : ℤ × Snapshots :=
    (s.nextSnapshot, { s with pool := pool ++ [entry parent], nextSnapshot := s.nextSnapshot + 1 })
  match s.orphans with
  | .deny =>
    if s.active ≠ -1 then
      match s.getSnapshot s.active with
      | none => (-1, s)
      | some _ => result (s.addChild s.active) s.active
    else result s.pool s.active
  | .mixed =>
    if s.currentBase ≠ -1 then result (s.addChild s.currentBase) s.currentBase
    else result s.pool s.currentBase
  | _ => result s.pool (-1)

/-- The change of an entry when the snapshot `snap` with the parent `parent` is deleted: an only child
gets the parent, and the parent gets the child and the active mark. -/
def relink (snap parent : DiskSnapshot) (wasActive : Bool) (x : DiskSnapshot) : DiskSnapshot :=
  let mine := snap.children.toFinset
  let x' := if mine.card = 1 ∧ x.id ∈ mine then { x with parent := parent.id } else x
  if x'.id = parent.id then
    let childSet := parent.children.toFinset.erase snap.id
    let childSet' := if mine.card = 1 then childSet ∪ mine else childSet
    { x' with
      children := childSet'.sort (· ≤ ·)
      active := if wasActive then true else x'.active }
  else x'

/-- `Snapshots::delete_snapshot`. -/
def deleteSnapshot (s : Snapshots) (id : ℤ) : Snapshots :=
  match s.getSnapshot id with
  | none => s
  | some snap =>
    let s' :=
      if s.orphans = .deny ∨ s.orphans = .mixed then
        if snap.parent = -1 then s
        else
          match s.getSnapshot snap.parent with
          | none => s
          | some parent =>
            { s with
              pool := s.pool.map (relink snap parent (s.active = id))
              active := if s.active = id then snap.parent else s.active }
      else s
    { s' with pool := s'.pool.filter fun x => x.id ≠ id }

/-- `Snapshots::active_snapshot`. -/
def activeSnapshot (s : Snapshots) (id : ℤ) (revert : Bool) : ℤ × Snapshots :=
  if id = s.active then (0, s)
  else
    match s.getSnapshot id with
    | none => (-1, s)
    | some _ =>
      if s.orphans = .mixed ∧ revert = false then (0, s)
      else
        let marked := modify s.pool id fun x => { x with active := true }
        (0, { s with
          currentBase := if s.orphans = .mixed then id else s.currentBase
          pool := modify marked s.active fun x => { x with active := false }
          active := id })

/-- `Snapshots::children`: how many there are, or -1. -/
def childrenCount (s : Snapshots) (id : ℤ) : ℤ :=
  if id ≤ -1 then -1
  else
    match s.getSnapshot id with
    | none => -1
    | some x => x.children.length

/-- `Snapshots::test_delete_image`: the error, if any. -/
def testDeleteImage (s : Snapshots) (id : ℤ) : Option String :=
  match s.getSnapshot id with
  | none => some "Snapshot does not exist"
  | some x =>
    if s.orphans = .deny ∨ s.orphans = .mixed then
      if x.active then some "Cannot delete the active snapshot"
      else if x.children ≠ [] then some "Cannot delete snapshot with children"
      else none
    else none

/-- The tests of a snapshot with one child. -/
def testOnlyChild (s : Snapshots) (x : DiskSnapshot) : Option String :=
  let childFault := match x.children with
    | [] => false
    | c :: _ => s.childrenCount c > 1 || (s.childrenCount c = 1 && s.active = c)
  if childFault then some "Cannot delete snapshot if child has children"
  else if x.parent ≠ -1 ∧ s.childrenCount x.parent > 1 then
    some "Cannot delete snapshot if parent has more than one child"
  else none

/-- `Snapshots::test_delete`: the error, if any. -/
def testDelete (s : Snapshots) (id : ℤ) (persistent : Bool) : Option String :=
  match s.getSnapshot id with
  | none => some "Snapshot does not exist"
  | some x =>
    match s.orphans with
    | .deny | .linear =>
      if persistent = true ∧ id = 0 then
        some "Cannot delete snapshot 0 for persistent disk images"
      else if x.children.length > 1 then
        some "Cannot delete snapshot with more than one children"
      else if x.children.length = 0 then none
      else if x.children.length = 1 ∧ s.active = id then
        some "Cannot delete the active snapshot with children"
      else s.testOnlyChild x
    | .mixed =>
      if id = s.active then some "Cannot delete the active snapshot"
      else if x.children.length ≠ 0 then some "Cannot delete snapshot with children"
      else none
    | .allow => none
    | .format => some "Inconsistent snapshot orphan mode"

/-! ## Runs -/

/-- Operations on the snapshots.  A deletion is tested before. -/
inductive Op where
  | create (name : String) (sizeMb date : ℤ)
  | setActive (id : ℤ) (revert : Bool)
  | delete (id : ℤ) (persistent : Bool)
  | deleteImage (id : ℤ)

/-- The state after an operation, if its test allows it. -/
def step (s : Snapshots) : Op → Option Snapshots
  | .create name sizeMb date => some (s.createSnapshot name sizeMb date).2
  | .setActive id revert => some (s.activeSnapshot id revert).2
  | .delete id persistent =>
    if s.testDelete id persistent = none then some (s.deleteSnapshot id) else none
  | .deleteImage id => if s.testDeleteImage id = none then some (s.deleteSnapshot id) else none

/-- The tree of the snapshots: identifiers are unique and were given out before, a parent is there,
the children are the snapshots with this parent, and the active snapshot is there and is the only one
with the mark. -/
structure Tree (s : Snapshots) : Prop where
  ids : (s.pool.map DiskSnapshot.id).Nodup
  given : ∀ x ∈ s.pool, 0 ≤ x.id ∧ x.id < s.nextSnapshot
  parents : ∀ x ∈ s.pool, x.parent = -1 ∨ ∃ y ∈ s.pool, y.id = x.parent
  children : ∀ y ∈ s.pool, ∀ c, c ∈ y.children ↔ ∃ x ∈ s.pool, x.id = c ∧ x.parent = y.id
  activeThere : s.active = -1 ∨ ∃ y ∈ s.pool, y.id = s.active
  marks : ∀ y ∈ s.pool, y.active = true ↔ y.id = s.active

/-- The deletion mends what points to the snapshot.  The active snapshot is not deleted, unless its
parent takes the mark; and a snapshot without parent has no child. -/
def Mended (s : Snapshots) (id : ℤ) : Prop :=
  match s.orphans with
  | .mixed => True
  | .deny => ∀ x ∈ s.pool, x.id = id → x.parent = -1 → x.children = [] ∧ id ≠ s.active
  | _ => id ≠ s.active

/-- The deletions of a run mend the tree. -/
def MendedOp (s : Snapshots) : Op → Prop
  | .delete id _ => s.Mended id
  | .deleteImage id => s.Mended id
  | _ => True

end Snapshots
