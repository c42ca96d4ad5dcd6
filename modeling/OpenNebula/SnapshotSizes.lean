/-
# The sizes of the snapshots of a disk (`src/vm/Snapshots.cc`)

What the functions that charge the snapshots read: the size of one, the sum of all, and the ones that
are younger than another.  A deletion takes exactly one size from the sum, whatever it does to the
tree, so a loop of deletions that adds the sizes up takes from the sum what it adds
(`total_dropSnapshots`).  The mark of the active snapshot follows every operation (`Marked`).

Conventions of the embedding:

* `snapshot_pool` is a map: the younger snapshots come in the order of their identifiers.
* The sums of the sizes do not overflow 64 bits.
-/
import OpenNebula.SnapshotTree
import OpenNebula.TextList

open TextNumber

namespace Snapshots

/-! ## Sizes -/

/-- `Snapshots::snapshot_size`. -/
def snapshotSize (s : Snapshots) (id : ℤ) : ℤ :=
  match s.getSnapshot id with
  | none => 0
  | some x => x.size

/-- `Snapshots::total_size`. -/
def totalSize (s : Snapshots) : ℤ := (s.pool.map DiskSnapshot.size).sum

/-- `Snapshots::get_younger_snapshots`. -/
def getYoungerSnapshots (s : Snapshots) (id : ℤ) : List ℤ :=
  ((s.pool.map DiskSnapshot.id).dedup.filter fun i => i > id).insertionSort (· ≤ ·)

theorem mem_getYoungerSnapshots {s : Snapshots} {id i : ℤ} :
    i ∈ s.getYoungerSnapshots id ↔ i ∈ s.pool.map DiskSnapshot.id ∧ i > id := by
  rw [getYoungerSnapshots, List.mem_insertionSort, List.mem_filter, List.mem_dedup, decide_eq_true_eq]

theorem nodup_getYoungerSnapshots (s : Snapshots) (id : ℤ) : (s.getYoungerSnapshots id).Nodup := by
  rw [getYoungerSnapshots, (List.perm_insertionSort _ _).nodup_iff]
  exact (List.nodup_dedup _).filter _

/-- One round of a loop that adds up the sizes of the snapshots that it deletes. -/
def dropSnapshot (acc : ℤ × Snapshots) (id : ℤ) : ℤ × Snapshots :=
  (acc.1 + acc.2.snapshotSize id, acc.2.deleteSnapshot id)

/-! ## Deletions -/

section Deletion

variable {s : Snapshots}

@[simp] theorem relink_size (snap parent : DiskSnapshot) (wasActive : Bool) (x : DiskSnapshot) :
    (relink snap parent wasActive x).size = x.size := by
  unfold relink
  dsimp only
  split_ifs <;> rfl

@[simp] theorem remark_size (id old : ℤ) (x : DiskSnapshot) : (remark id old x).size = x.size := by
  unfold remark
  dsimp only
  split_ifs <;> rfl

theorem filter_of_getSnapshot {s : Snapshots} {id : ℤ} (hget : s.getSnapshot id = none) :
    s.pool.filter (fun x => x.id ≠ id) = s.pool := by
  rw [List.filter_eq_self]
  intro x hx
  simpa using List.find?_eq_none.mp hget x hx

/-- A deletion takes an entry away, and before it may mend what points to it. -/
theorem deleteSnapshot_cases (s : Snapshots) (id : ℤ) :
    s.deleteSnapshot id = { s with pool := s.pool.filter fun x => x.id ≠ id } ∨
      ∃ snap, ∃ parent ∈ s.pool, parent.id = snap.parent ∧
        s.deleteSnapshot id =
          { s with
            pool := (s.pool.map (relink snap parent (s.active = id))).filter fun x => x.id ≠ id
            active := if s.active = id then snap.parent else s.active } := by
  unfold deleteSnapshot
  cases hget : s.getSnapshot id with
  | none =>
    exact Or.inl (by rw [filter_of_getSnapshot hget])
  | some snap =>
    dsimp only
    by_cases hmode : s.orphans = .deny ∨ s.orphans = .mixed
    · rw [if_pos hmode]
      by_cases hroot : snap.parent = -1
      · rw [if_pos hroot]
        exact Or.inl rfl
      · rw [if_neg hroot]
        cases hpar : s.getSnapshot snap.parent with
        | none => exact Or.inl rfl
        | some parent =>
          obtain ⟨hparent, hid⟩ := getSnapshot_eq_some hpar
          exact Or.inr ⟨snap, parent, hparent, hid, rfl⟩
    · rw [if_neg hmode]
      exact Or.inl rfl

/-- A deletion changes the links of the entries and then takes one away. -/
theorem deleteSnapshot_pool (s : Snapshots) (id : ℤ) :
    ∃ g : DiskSnapshot → DiskSnapshot, (∀ x, (g x).id = x.id) ∧ (∀ x, (g x).size = x.size) ∧
      (s.deleteSnapshot id).pool = (s.pool.map g).filter fun x => x.id ≠ id := by
  rcases s.deleteSnapshot_cases id with hplain | ⟨snap, parent, -, -, hmend⟩
  · exact ⟨fun x => x, fun _ => rfl, fun _ => rfl, by rw [hplain, List.map_id']⟩
  · refine ⟨relink snap parent (s.active = id), fun _ => relink_id _, fun _ => relink_size _ _ _ _, ?_⟩
    rw [hmend]

/-- The identifiers that a deletion leaves. -/
theorem ids_deleteSnapshot (id : ℤ) :
    (s.deleteSnapshot id).pool.map DiskSnapshot.id =
      (s.pool.map DiskSnapshot.id).filter fun i => i ≠ id := by
  obtain ⟨g, hid, -, hpool⟩ := s.deleteSnapshot_pool id
  rw [hpool, ← map_id_map hid s.pool, List.filter_map (f := DiskSnapshot.id)]
  rfl

theorem nodup_deleteSnapshot (h : (s.pool.map DiskSnapshot.id).Nodup) (id : ℤ) :
    ((s.deleteSnapshot id).pool.map DiskSnapshot.id).Nodup := by
  rw [ids_deleteSnapshot]
  exact h.filter _

@[simp] theorem orphans_deleteSnapshot (id : ℤ) : (s.deleteSnapshot id).orphans = s.orphans := by
  rcases s.deleteSnapshot_cases id with hplain | ⟨snap, parent, -, -, hmend⟩
  · rw [hplain]
  · rw [hmend]

/-- The sum of the sizes, when an entry is taken away from a list of entries with distinct
identifiers. -/
theorem sum_filter_ne (pool : List DiskSnapshot) (h : (pool.map DiskSnapshot.id).Nodup) (id : ℤ) :
    ((pool.filter fun x => x.id ≠ id).map DiskSnapshot.size).sum +
        (match pool.find? fun x => x.id = id with | none => 0 | some x => x.size) =
      (pool.map DiskSnapshot.size).sum := by
  induction pool with
  | nil => rfl
  | cons x pool ih =>
    rw [List.map_cons, List.nodup_cons] at h
    by_cases hx : x.id = id
    · have hrest : pool.filter (fun y => y.id ≠ id) = pool := by
        rw [List.filter_eq_self]
        intro y hy
        rw [decide_eq_true_eq]
        intro hyid
        exact h.1 (List.mem_map.mpr ⟨y, hy, by rw [hyid, hx]⟩)
      rw [List.filter_cons_of_neg (by simpa using hx), hrest,
        List.find?_cons_of_pos (by simpa using hx), List.map_cons, List.sum_cons, add_comm]
    · rw [List.filter_cons_of_pos (by simpa using hx), List.find?_cons_of_neg (by simpa using hx),
        List.map_cons, List.sum_cons, List.map_cons, List.sum_cons, add_assoc, ih h.2]

/-- A change of the entries that keeps identifiers and sizes keeps the sum. -/
theorem totalSize_of_pool {t : Snapshots} {g : DiskSnapshot → DiskSnapshot}
    (hsize : ∀ x, (g x).size = x.size) (hpool : t.pool = s.pool.map g) : t.totalSize = s.totalSize := by
  rw [totalSize, hpool, List.map_map]
  exact congrArg List.sum (List.map_congr_left fun x _ => hsize x)

/-- A change of the entries that keeps identifiers and sizes keeps each size. -/
theorem snapshotSize_of_pool {t : Snapshots} {g : DiskSnapshot → DiskSnapshot}
    (hid : ∀ x, (g x).id = x.id) (hsize : ∀ x, (g x).size = x.size) (hpool : t.pool = s.pool.map g)
    (id : ℤ) : t.snapshotSize id = s.snapshotSize id := by
  have hget : t.getSnapshot id = (s.getSnapshot id).map g := by
    rw [getSnapshot, getSnapshot, hpool, List.find?_map]
    congr 1
    refine List.find?_congr fun x _ => ?_
    rw [Function.comp_apply, hid]
  rw [snapshotSize, snapshotSize, hget]
  cases s.getSnapshot id with
  | none => rfl
  | some x => exact hsize x

/-- **A deletion takes one size from the sum.** -/
theorem totalSize_deleteSnapshot (h : (s.pool.map DiskSnapshot.id).Nodup) (id : ℤ) :
    s.snapshotSize id + (s.deleteSnapshot id).totalSize = s.totalSize := by
  obtain ⟨g, hid, hsize, hpool⟩ := s.deleteSnapshot_pool id
  have hmid : (({ s with pool := s.pool.map g } : Snapshots).pool.map DiskSnapshot.id).Nodup := by
    rw [map_id_map hid]
    exact h
  have hsum := sum_filter_ne _ hmid id
  have htotal : ({ s with pool := s.pool.map g } : Snapshots).totalSize = s.totalSize :=
    totalSize_of_pool hsize rfl
  have hone : ({ s with pool := s.pool.map g } : Snapshots).snapshotSize id = s.snapshotSize id :=
    snapshotSize_of_pool hid hsize rfl id
  rw [← htotal, ← hone, totalSize, totalSize, hpool, ← hsum, add_comm]
  rfl

/-- **A loop of deletions takes from the sum what it adds up.** -/
theorem total_dropSnapshots (ids : List ℤ) (acc : ℤ × Snapshots)
    (h : (acc.2.pool.map DiskSnapshot.id).Nodup) :
    (ids.foldl dropSnapshot acc).1 + (ids.foldl dropSnapshot acc).2.totalSize =
      acc.1 + acc.2.totalSize := by
  induction ids generalizing acc with
  | nil => rfl
  | cons id ids ih =>
    rw [List.foldl_cons, ih _ (nodup_deleteSnapshot h id), dropSnapshot, add_assoc,
      totalSize_deleteSnapshot h]

/-- A deletion keeps the sizes of the other snapshots. -/
theorem snapshotSize_deleteSnapshot {id i : ℤ} (hne : i ≠ id) :
    (s.deleteSnapshot id).snapshotSize i = s.snapshotSize i := by
  obtain ⟨g, hid, hsize, hpool⟩ := s.deleteSnapshot_pool id
  have hget : (s.deleteSnapshot id).getSnapshot i =
      ({ s with pool := s.pool.map g } : Snapshots).getSnapshot i := by
    rw [getSnapshot, getSnapshot, hpool, List.find?_filter]
    refine List.find?_congr fun x _ => ?_
    rw [Bool.eq_iff_iff, decide_eq_true_eq, decide_eq_true_eq, decide_eq_true_eq]
    constructor
    · exact fun h => h.2
    · exact fun h => ⟨h ▸ hne, h⟩
  rw [← snapshotSize_of_pool (t := { s with pool := s.pool.map g }) hid hsize rfl i, snapshotSize,
    snapshotSize, hget]

/-- What a loop of deletions adds up, in the sizes of the snapshots before it. -/
theorem fst_dropSnapshots (ids : List ℤ) (acc : ℤ × Snapshots) (h : ids.Nodup) :
    (ids.foldl dropSnapshot acc).1 = acc.1 + (ids.map acc.2.snapshotSize).sum := by
  induction ids generalizing acc with
  | nil => simp
  | cons id ids ih =>
    rw [List.nodup_cons] at h
    have hsame : ids.map (acc.2.deleteSnapshot id).snapshotSize = ids.map acc.2.snapshotSize := by
      refine List.map_congr_left fun i hi => snapshotSize_deleteSnapshot ?_
      rintro rfl
      exact h.1 hi
    rw [List.foldl_cons, ih _ h.2, dropSnapshot, hsame, List.map_cons, List.sum_cons, add_assoc]

/-- In the modes without parents a deletion only takes the entry away. -/
theorem deleteSnapshot_linear (hmode : s.orphans = .linear) (id : ℤ) :
    s.deleteSnapshot id = { s with pool := s.pool.filter fun x => x.id ≠ id } := by
  have hnot : ¬ (s.orphans = .deny ∨ s.orphans = .mixed) := by
    rw [hmode]
    decide
  unfold deleteSnapshot
  cases hget : s.getSnapshot id with
  | none =>
    rw [filter_of_getSnapshot hget]
  | some snap =>
    dsimp only
    rw [if_neg hnot]

theorem dropSnapshots_linear (ids : List ℤ) (acc : ℤ × Snapshots) (hmode : acc.2.orphans = .linear) :
    (ids.foldl dropSnapshot acc).2 = { acc.2 with pool := acc.2.pool.filter fun x => x.id ∉ ids } := by
  induction ids generalizing acc with
  | nil => simp
  | cons id ids ih =>
    rw [List.foldl_cons, ih _ ((orphans_deleteSnapshot id).trans hmode), dropSnapshot,
      deleteSnapshot_linear hmode, Snapshots.mk.injEq]
    refine ⟨rfl, ?_, rfl, rfl, rfl⟩
    rw [List.filter_filter]
    refine List.filter_congr fun x _ => ?_
    rw [← Bool.decide_and, decide_eq_decide, List.mem_cons, not_or, and_comm]

/-- The snapshots that are not younger than one of them. -/
theorem filter_younger (s : Snapshots) (id : ℤ) :
    (s.pool.filter fun x => x.id ∉ s.getYoungerSnapshots id) = s.pool.filter fun x => x.id ≤ id := by
  refine List.filter_congr fun x hx => decide_eq_decide.mpr ?_
  rw [mem_getYoungerSnapshots]
  constructor
  · intro hnot
    by_contra hlt
    exact hnot ⟨List.mem_map_of_mem hx, by omega⟩
  · rintro hle ⟨-, hgt⟩
    omega

end Deletion

/-! ## The active snapshot -/

/-- The identifiers are unique and were given out before, also the one of the active snapshot, and the
mark is on the active snapshot. -/
structure Marked (s : Snapshots) : Prop where
  ids : (s.pool.map DiskSnapshot.id).Nodup
  given : ∀ x ∈ s.pool, x.id < s.nextSnapshot
  activeGiven : s.active < s.nextSnapshot
  marks : ∀ x ∈ s.pool, x.active = true ↔ x.id = s.active
  next : 0 ≤ s.nextSnapshot

section Marks

variable {s : Snapshots}

theorem marked_new (orphans : AllowOrphansMode) : (new orphans).Marked where
  ids := List.nodup_nil
  given := by simp [new]
  activeGiven := by simp [new]
  marks := by simp [new]
  next := le_refl 0

/-- What `active_snapshot` does to the entries, when it changes the active snapshot. -/
theorem activeSnapshot_eq {id : ℤ} {revert : Bool} (hne : id ≠ s.active)
    (hkeep : ¬ (s.orphans = .mixed ∧ revert = false)) {x : DiskSnapshot}
    (hget : s.getSnapshot id = some x) :
    (s.activeSnapshot id revert).2 =
      { s with
        currentBase := if s.orphans = .mixed then id else s.currentBase
        pool := s.pool.map (remark id s.active)
        active := id } := by
  have hpool : modify (modify s.pool id fun x => { x with active := true }) s.active
      (fun x => { x with active := false }) = s.pool.map (remark id s.active) := by
    rw [modify, modify, List.map_map]
    rfl
  unfold activeSnapshot
  rw [if_neg hne, hget]
  dsimp only
  rw [if_neg hkeep, hpool]

/-- `active_snapshot` leaves all as it is, or moves the mark. -/
theorem activeSnapshot_cases (s : Snapshots) (id : ℤ) (revert : Bool) :
    (s.activeSnapshot id revert).2 = s ∨
      id ≠ s.active ∧ ∃ x ∈ s.pool, x.id = id ∧
        (s.activeSnapshot id revert).2 =
          { s with
            currentBase := if s.orphans = .mixed then id else s.currentBase
            pool := s.pool.map (remark id s.active)
            active := id } := by
  by_cases hsame : id = s.active
  · refine Or.inl ?_
    rw [activeSnapshot, if_pos hsame]
  · cases hget : s.getSnapshot id with
    | none =>
      refine Or.inl ?_
      rw [activeSnapshot, if_neg hsame, hget]
    | some x =>
      by_cases hkeep : s.orphans = .mixed ∧ revert = false
      · refine Or.inl ?_
        rw [activeSnapshot, if_neg hsame, hget]
        exact congrArg Prod.snd (if_pos hkeep)
      · obtain ⟨hx, hid⟩ := getSnapshot_eq_some hget
        exact Or.inr ⟨hsame, x, hx, hid, activeSnapshot_eq hsame hkeep hget⟩

/-- `active_snapshot` changes no identifier and no size. -/
theorem activeSnapshot_pool (s : Snapshots) (id : ℤ) (revert : Bool) :
    ∃ g : DiskSnapshot → DiskSnapshot, (∀ x, (g x).id = x.id) ∧ (∀ x, (g x).size = x.size) ∧
      (s.activeSnapshot id revert).2.pool = s.pool.map g := by
  rcases s.activeSnapshot_cases id revert with hsame | ⟨-, x, -, -, hnew⟩
  · exact ⟨fun x => x, fun _ => rfl, fun _ => rfl, by rw [hsame, List.map_id']⟩
  · exact ⟨remark id s.active, remark_id _ _, remark_size _ _, by rw [hnew]⟩

@[simp] theorem ids_activeSnapshot (id : ℤ) (revert : Bool) :
    (s.activeSnapshot id revert).2.pool.map DiskSnapshot.id = s.pool.map DiskSnapshot.id := by
  obtain ⟨g, hid, -, hpool⟩ := s.activeSnapshot_pool id revert
  rw [hpool, map_id_map hid]

@[simp] theorem totalSize_activeSnapshot (id : ℤ) (revert : Bool) :
    (s.activeSnapshot id revert).2.totalSize = s.totalSize := by
  obtain ⟨g, -, hsize, hpool⟩ := s.activeSnapshot_pool id revert
  exact totalSize_of_pool hsize hpool

@[simp] theorem snapshotSize_activeSnapshot (id : ℤ) (revert : Bool) (i : ℤ) :
    (s.activeSnapshot id revert).2.snapshotSize i = s.snapshotSize i := by
  obtain ⟨g, hid, hsize, hpool⟩ := s.activeSnapshot_pool id revert
  exact snapshotSize_of_pool hid hsize hpool i

@[simp] theorem orphans_activeSnapshot (id : ℤ) (revert : Bool) :
    (s.activeSnapshot id revert).2.orphans = s.orphans := by
  rcases s.activeSnapshot_cases id revert with hsame | ⟨-, x, -, -, hnew⟩
  · rw [hsame]
  · rw [hnew]

theorem getYoungerSnapshots_activeSnapshot (id : ℤ) (revert : Bool) (i : ℤ) :
    (s.activeSnapshot id revert).2.getYoungerSnapshots i = s.getYoungerSnapshots i := by
  rw [getYoungerSnapshots, getYoungerSnapshots, ids_activeSnapshot]

theorem Marked.activeSnapshot (h : s.Marked) (id : ℤ) (revert : Bool) :
    (s.activeSnapshot id revert).2.Marked := by
  rcases s.activeSnapshot_cases id revert with hsame | ⟨hne, x, hx, hid, hnew⟩
  · rw [hsame]
    exact h
  · refine ⟨by rw [ids_activeSnapshot]; exact h.ids, ?_, ?_, ?_, ?_⟩
    · rw [hnew]
      intro y hy
      obtain ⟨z, hz, rfl⟩ := List.mem_map.mp hy
      rw [remark_id]
      exact h.given z hz
    · rw [hnew, ← hid]
      exact h.given x hx
    · rw [hnew]
      intro y hy
      obtain ⟨z, hz, rfl⟩ := List.mem_map.mp hy
      rw [remark_active hne (h.marks z hz), remark_id]
    · rw [nextSnapshot_activeSnapshot]
      exact h.next

/-- A revert to a snapshot that is there makes it the active one. -/
theorem active_activeSnapshot {x : DiskSnapshot} (hx : x ∈ s.pool) :
    (s.activeSnapshot x.id true).2.active = x.id := by
  by_cases hsame : x.id = s.active
  · rw [activeSnapshot, if_pos hsame, hsame]
  · have hsome : (s.getSnapshot x.id).isSome := by
      rw [getSnapshot, List.find?_isSome]
      exact ⟨x, hx, by simp⟩
    obtain ⟨y, hy⟩ := Option.isSome_iff_exists.mp hsome
    rw [activeSnapshot_eq hsame (by simp) hy]

/-- A revert changes nothing but the mark, which the reverted snapshot gets. -/
theorem Marked.pool_activeSnapshot (h : s.Marked) {x : DiskSnapshot} (hx : x ∈ s.pool) :
    (s.activeSnapshot x.id true).2.pool =
      s.pool.map fun y => { y with active := decide (y.id = x.id) } := by
  have hactive := active_activeSnapshot hx
  rcases s.activeSnapshot_cases x.id true with hsame | ⟨hne, z, -, -, hnew⟩
  · rw [hsame] at hactive ⊢
    rw [eq_comm]
    refine (List.map_congr_left fun y hy => ?_).trans (List.map_id' _)
    have hmark : decide (y.id = x.id) = y.active := by
      rw [← hactive, Bool.eq_iff_iff, decide_eq_true_eq]
      exact (h.marks y hy).symm
    rw [hmark]
  · rw [hnew]
    refine List.map_congr_left fun y hy => ?_
    have hmark := remark_active hne (h.marks y hy)
    have hbool : (remark x.id s.active y).active = decide (y.id = x.id) := by
      rw [Bool.eq_iff_iff, decide_eq_true_eq]
      exact hmark
    rw [← hbool]
    unfold remark
    dsimp only
    split_ifs <;> rfl

theorem Marked.deleteSnapshot (h : s.Marked) (id : ℤ) : (s.deleteSnapshot id).Marked := by
  rcases s.deleteSnapshot_cases id with hplain | ⟨snap, parent, hparent, hparid, hmend⟩
  · rw [hplain]
    exact ⟨h.ids.sublist (List.filter_sublist.map _), fun y hy => h.given y (List.mem_filter.mp hy).1,
      h.activeGiven, fun y hy => h.marks y (List.mem_filter.mp hy).1, h.next⟩
  · refine ⟨nodup_deleteSnapshot h.ids id, ?_, ?_, ?_, ?_⟩
    · rw [hmend]
      intro y hy
      obtain ⟨z, hz, rfl⟩ := List.mem_map.mp (List.mem_filter.mp hy).1
      rw [relink_id]
      exact h.given z hz
    · rw [hmend]
      dsimp only
      split_ifs
      · rw [← hparid]
        exact h.given parent hparent
      · exact h.activeGiven
    · rw [hmend]
      intro y hy
      obtain ⟨hmem, hyid⟩ := List.mem_filter.mp hy
      obtain ⟨z, hz, rfl⟩ := List.mem_map.mp hmem
      rw [relink_id, decide_eq_true_eq] at hyid
      rw [relink_active, relink_id, decide_eq_true_eq, h.marks z hz, hparid]
      dsimp only
      by_cases hactive : s.active = id
      · -- The deleted snapshot was the active one, and it is not this entry.
        rw [if_pos hactive, hactive]
        constructor
        · rintro (⟨hz', -⟩ | hz')
          · exact hz'
          · exact absurd hz' hyid
        · exact fun hz' => Or.inl ⟨hz', rfl⟩
      · rw [if_neg hactive]
        constructor
        · rintro (⟨-, hz'⟩ | hz')
          · exact absurd hz' hactive
          · exact hz'
        · exact fun hz' => Or.inr hz'
    · rw [nextSnapshot_deleteSnapshot]
      exact h.next

theorem Marked.dropSnapshots (ids : List ℤ) {acc : ℤ × Snapshots} (h : acc.2.Marked) :
    (ids.foldl dropSnapshot acc).2.Marked := by
  induction ids generalizing acc with
  | nil => exact h
  | cons id ids ih => exact ih (h.deleteSnapshot id)

theorem Marked.createSnapshot (h : s.Marked) (name : String) (sizeMb date : ℤ) :
    (s.createSnapshot name sizeMb date).2.Marked := by
  have hgiven := h.given
  have hactive := h.activeGiven
  have hmarks := h.marks
  have hnext := h.next
  -- The new entry, after some entries that only changed their children.
  have hnew : ∀ (g : DiskSnapshot → DiskSnapshot) (parent : ℤ), (∀ x, (g x).id = x.id) →
      (∀ x, (g x).active = x.active) →
      Marked { s with
        pool := s.pool.map g ++ [⟨s.nextSnapshot, name, sizeMb, date, parent, [], false⟩]
        nextSnapshot := s.nextSnapshot + 1 } := by
    intro g parent hid hact
    have hmem : ∀ {y}, y ∈ s.pool.map g ++ [⟨s.nextSnapshot, name, sizeMb, date, parent, [], false⟩] →
        (∃ z ∈ s.pool, g z = y) ∨ y = ⟨s.nextSnapshot, name, sizeMb, date, parent, [], false⟩ := by
      intro y hy
      rwa [List.mem_append, List.mem_map, List.mem_singleton] at hy
    refine ⟨?_, ?_, ?_, ?_, ?_⟩
    · rw [List.map_append, map_id_map hid, List.nodup_append]
      refine ⟨h.ids, List.nodup_singleton _, ?_⟩
      rintro a ha b hb rfl
      obtain ⟨x, hx, rfl⟩ := List.mem_map.mp ha
      have hlt := hgiven x hx
      have heq : x.id = s.nextSnapshot := List.mem_singleton.mp hb
      omega
    · intro y hy
      dsimp only
      rcases hmem hy with ⟨z, hz, rfl⟩ | rfl
      · have hlt := hgiven z hz
        rw [hid]
        omega
      · dsimp only
        omega
    · dsimp only
      omega
    · intro y hy
      rcases hmem hy with ⟨z, hz, rfl⟩ | rfl
      · rw [hid, hact]
        exact hmarks z hz
      · dsimp only
        refine iff_of_false Bool.false_ne_true ?_
        omega
    · dsimp only
      omega
  have hroot := hnew (fun x => x)
  have hchild := fun q => hnew (s.adopt q)
  simp only [List.map_id'] at hroot
  unfold Snapshots.createSnapshot
  dsimp only
  split
  · split
    · split
      · exact h
      · exact hchild _ _ (adopt_id _) (adopt_active _)
    · exact hroot _ (fun _ => trivial) (fun _ => trivial)
  · split
    · exact hchild _ _ (adopt_id _) (adopt_active _)
    · exact hroot _ (fun _ => trivial) (fun _ => trivial)
  · exact hroot _ (fun _ => trivial) (fun _ => trivial)

/-- A snapshot that is not made leaves the list as it is. -/
theorem Marked.createSnapshot_failed (h : s.Marked) {name : String} {sizeMb date : ℤ}
    (hfailed : (s.createSnapshot name sizeMb date).1 = -1) :
    (s.createSnapshot name sizeMb date).2 = s := by
  have hnext := h.next
  revert hfailed
  unfold Snapshots.createSnapshot
  dsimp only
  split
  · split
    · split
      · exact fun _ => rfl
      · dsimp only
        omega
    · dsimp only
      omega
  · split
    · dsimp only
      omega
    · dsimp only
      omega
  · dsimp only
    omega

theorem totalSize_createSnapshot_new (orphans : AllowOrphansMode) (name : String) (sizeMb date : ℤ) :
    ((new orphans).createSnapshot name sizeMb date).2.totalSize = sizeMb := by
  cases orphans <;> exact add_zero sizeMb

theorem Marked.step (h : s.Marked) {op : Op} {t : Snapshots} (hstep : s.step op = some t) : t.Marked := by
  cases op with
  | create name sizeMb date =>
    obtain rfl := Option.some.inj hstep
    exact h.createSnapshot name sizeMb date
  | setActive id revert =>
    obtain rfl := Option.some.inj hstep
    exact h.activeSnapshot id revert
  | delete id persistent =>
    simp only [Snapshots.step] at hstep
    split_ifs at hstep
    obtain rfl := Option.some.inj hstep
    exact h.deleteSnapshot id
  | deleteImage id =>
    simp only [Snapshots.step] at hstep
    split_ifs at hstep
    obtain rfl := Option.some.inj hstep
    exact h.deleteSnapshot id

end Marks

end Snapshots

/-! ## Quota templates -/

/-- The quota template of a datastore operation: the values of `DATASTORE`, `SIZE` and `IMAGES`. -/
structure DatastoreDeltas where
  datastore : List Text
  size : List ℤ
  images : List ℤ
  deriving DecidableEq, Repr

namespace DatastoreDeltas

/-- A template without attributes. -/
def empty : DatastoreDeltas := ⟨[], [], []⟩

/-- `Template::add` of the three attributes. -/
def add (d : DatastoreDeltas) (ds : Text) (size : ℤ) : DatastoreDeltas :=
  ⟨d.datastore ++ [ds], d.size ++ [size], d.images ++ [0]⟩

/-- `Template::replace` of the three attributes. -/
def replace (_ : DatastoreDeltas) (ds : Text) (size : ℤ) : DatastoreDeltas := ⟨[ds], [size], [0]⟩

/-- `SIZE`, or 0 when it is not there. -/
def sizeLeft (d : DatastoreDeltas) : ℤ := d.size.headD 0

@[simp] theorem sizeLeft_empty : empty.sizeLeft = 0 := rfl

@[simp] theorem sizeLeft_add_empty (ds : Text) (size : ℤ) : (empty.add ds size).sizeLeft = size := rfl

@[simp] theorem sizeLeft_replace (d : DatastoreDeltas) (ds : Text) (size : ℤ) :
    (d.replace ds size).sizeLeft = size := rfl

end DatastoreDeltas
