/-
# The tree of the snapshots

Parents, children, the active mark and the identifiers of the snapshots of a disk are one tree
(`Snapshots.Tree`), as long as the deletions mend what pointed to the snapshot.  A deletion does not
mend it when the snapshot has no parent to take over (in the mode `DENY`), or in the modes without
parents when the snapshot is the active one: `Mended` is the exact condition.
-/
import OpenNebula.Snapshots

namespace Snapshots

/-! ## The list of the snapshots -/

section Pool

variable {s : Snapshots}

theorem getSnapshot_eq_some {id : ℤ} {x : DiskSnapshot} (h : s.getSnapshot id = some x) :
    x ∈ s.pool ∧ x.id = id :=
  ⟨List.mem_of_find?_eq_some h, by simpa using List.find?_some h⟩

theorem Tree.eq_of_id (h : s.Tree) {x y : DiskSnapshot} (hx : x ∈ s.pool) (hy : y ∈ s.pool)
    (heq : x.id = y.id) : x = y :=
  List.inj_on_of_nodup_map h.ids hx hy heq

theorem Tree.getSnapshot_of_mem (h : s.Tree) {x : DiskSnapshot} (hx : x ∈ s.pool) :
    s.getSnapshot x.id = some x := by
  cases hget : s.getSnapshot x.id with
  | none =>
    have hnone := List.find?_eq_none.mp hget x hx
    simp at hnone
  | some y =>
    obtain ⟨hy, hid⟩ := getSnapshot_eq_some hget
    rw [h.eq_of_id hy hx hid]

/-- A change that keeps the identifiers keeps the list of them. -/
theorem map_id_map {g : DiskSnapshot → DiskSnapshot} (hg : ∀ x, (g x).id = x.id) (pool : List DiskSnapshot) :
    (pool.map g).map DiskSnapshot.id = pool.map DiskSnapshot.id := by
  rw [List.map_map]
  exact List.map_congr_left fun x _ => hg x

end Pool

/-! ## Invariant -/

/-- The tree, and what the operations rely on: a parent is older than its children, no child is
listed twice, there are no parents in the flat modes, and the base of the mode `MIXED` is the active
snapshot. -/
structure Inv (s : Snapshots) : Prop extends Tree s where
  older : ∀ x ∈ s.pool, x.parent < x.id
  childNodup : ∀ x ∈ s.pool, x.children.Nodup
  flat : s.orphans ≠ .deny → s.orphans ≠ .mixed → ∀ x ∈ s.pool, x.parent = -1
  base : s.orphans = .mixed → s.currentBase = s.active
  next : 0 ≤ s.nextSnapshot

theorem inv_new (orphans : AllowOrphansMode) : (new orphans).Inv where
  ids := List.nodup_nil
  given := by simp [new]
  parents := by simp [new]
  children := by simp [new]
  activeThere := Or.inl rfl
  marks := by simp [new]
  older := by simp [new]
  childNodup := by simp [new]
  flat := by simp [new]
  base := fun _ => rfl
  next := le_refl 0

section Steps

variable {s : Snapshots}

/-- The entry of the parent gets the new child. -/
def adopt (s : Snapshots) (q : ℤ) (x : DiskSnapshot) : DiskSnapshot :=
  if x.id = q then { x with children := x.children ++ [s.nextSnapshot] } else x

@[simp] theorem adopt_id (q : ℤ) (x : DiskSnapshot) : (s.adopt q x).id = x.id := by
  unfold adopt
  split <;> rfl

@[simp] theorem adopt_parent (q : ℤ) (x : DiskSnapshot) : (s.adopt q x).parent = x.parent := by
  unfold adopt
  split <;> rfl

@[simp] theorem adopt_active (q : ℤ) (x : DiskSnapshot) : (s.adopt q x).active = x.active := by
  unfold adopt
  split <;> rfl

@[simp] theorem adopt_children (q : ℤ) (x : DiskSnapshot) :
    (s.adopt q x).children = if x.id = q then x.children ++ [s.nextSnapshot] else x.children := by
  unfold adopt
  split <;> rfl

/-- The state with a new snapshot under `q`. -/
def insertUnder (s : Snapshots) (e : DiskSnapshot) : Snapshots :=
  { s with pool := s.pool.map (s.adopt e.parent) ++ [e], nextSnapshot := s.nextSnapshot + 1 }

theorem mem_insertUnder {e y : DiskSnapshot} :
    y ∈ (s.insertUnder e).pool ↔ (∃ x ∈ s.pool, s.adopt e.parent x = y) ∨ y = e := by
  rw [insertUnder, List.mem_append, List.mem_map, List.mem_singleton]

/-- A new snapshot under one that is there, or under none. -/
theorem Inv.insertUnder (h : s.Inv) {e : DiskSnapshot} (hid : e.id = s.nextSnapshot)
    (hchildren : e.children = []) (hactive : e.active = false)
    (hq : e.parent = -1 ∨ ∃ y ∈ s.pool, y.id = e.parent)
    (hflat : s.orphans ≠ .deny → s.orphans ≠ .mixed → e.parent = -1) :
    (s.insertUnder e).Inv := by
  have hnext := h.next
  have hfresh : ∀ x ∈ s.pool, x.id ≠ e.id := by
    intro x hx
    have := (h.given x hx).2
    omega
  have hlt : e.parent < e.id := by
    rcases hq with hq | ⟨y, hy, hq⟩
    · omega
    · have := (h.given y hy).2
      omega
  have hold : ∀ x ∈ s.pool, s.adopt e.parent x ∈ (s.insertUnder e).pool :=
    fun x hx => mem_insertUnder.mpr (Or.inl ⟨x, hx, rfl⟩)
  have hnew : e ∈ (s.insertUnder e).pool := mem_insertUnder.mpr (Or.inr rfl)
  refine { ids := ?_, given := ?_, parents := ?_, children := ?_, activeThere := ?_, marks := ?_,
           older := ?_, childNodup := ?_, flat := ?_, base := h.base, next := ?_ }
  · rw [Snapshots.insertUnder, List.map_append, map_id_map (adopt_id _), List.nodup_append]
    refine ⟨h.ids, List.nodup_singleton _, ?_⟩
    rintro a ha b hb rfl
    obtain ⟨x, hx, rfl⟩ := List.mem_map.mp ha
    exact hfresh x hx (List.mem_singleton.mp hb)
  · intro y hy
    rcases mem_insertUnder.mp hy with ⟨x, hx, rfl⟩ | rfl
    · have hx' := h.given x hx
      rw [adopt_id]
      exact ⟨hx'.1, by change x.id < s.nextSnapshot + 1; omega⟩
    · exact ⟨by omega, by change y.id < s.nextSnapshot + 1; omega⟩
  · intro y hy
    rcases mem_insertUnder.mp hy with ⟨x, hx, rfl⟩ | rfl
    · rw [adopt_parent]
      rcases h.parents x hx with hroot | ⟨z, hz, hzid⟩
      · exact Or.inl hroot
      · exact Or.inr ⟨_, hold z hz, by rw [adopt_id, hzid]⟩
    · rcases hq with hroot | ⟨z, hz, hzid⟩
      · exact Or.inl hroot
      · exact Or.inr ⟨_, hold z hz, by rw [adopt_id, hzid]⟩
  · intro y hy c
    rcases mem_insertUnder.mp hy with ⟨x, hx, rfl⟩ | rfl
    · rw [adopt_children, adopt_id]
      constructor
      · intro hc
        have hcases : c ∈ x.children ∨ (x.id = e.parent ∧ c = e.id) := by
          split_ifs at hc with hxq
          · rcases List.mem_append.mp hc with hc | hc
            · exact Or.inl hc
            · exact Or.inr ⟨hxq, by rw [hid]; exact List.mem_singleton.mp hc⟩
          · exact Or.inl hc
        rcases hcases with hc | ⟨hxq, rfl⟩
        · obtain ⟨z, hz, hzid, hzpar⟩ := (h.children x hx c).mp hc
          exact ⟨_, hold z hz, by rw [adopt_id, hzid], by rw [adopt_parent, hzpar]⟩
        · exact ⟨e, hnew, rfl, hxq.symm⟩
      · rintro ⟨z, hz, hzid, hzpar⟩
        rcases mem_insertUnder.mp hz with ⟨w, hw, rfl⟩ | rfl
        · rw [adopt_id] at hzid
          rw [adopt_parent] at hzpar
          have hc := (h.children x hx c).mpr ⟨w, hw, hzid, hzpar⟩
          split_ifs
          · exact List.mem_append_left _ hc
          · exact hc
        · rw [if_pos hzpar.symm, ← hzid, hid]
          exact List.mem_append_right _ (List.mem_singleton_self _)
    · -- The new snapshot is younger than all the others, so it is the parent of none.
      rw [hchildren]
      refine iff_of_false (List.not_mem_nil) ?_
      rintro ⟨z, hz, -, hzpar⟩
      rcases mem_insertUnder.mp hz with ⟨w, hw, rfl⟩ | rfl
      · rw [adopt_parent] at hzpar
        have holder := h.older w hw
        have hgiven := (h.given w hw).2
        omega
      · omega
  · rcases h.activeThere with hnone | ⟨y, hy, hyid⟩
    · exact Or.inl hnone
    · exact Or.inr ⟨_, hold y hy, by rw [adopt_id, hyid]; rfl⟩
  · intro y hy
    rcases mem_insertUnder.mp hy with ⟨x, hx, rfl⟩ | rfl
    · rw [adopt_active, adopt_id]
      exact h.marks x hx
    · rw [hactive]
      refine iff_of_false Bool.false_ne_true ?_
      intro heq
      change y.id = s.active at heq
      rcases h.activeThere with hnone | ⟨z, hz, hzid⟩
      · omega
      · exact hfresh z hz (by rw [hzid, heq])
  · intro y hy
    rcases mem_insertUnder.mp hy with ⟨x, hx, rfl⟩ | rfl
    · rw [adopt_parent, adopt_id]
      exact h.older x hx
    · exact hlt
  · intro y hy
    rcases mem_insertUnder.mp hy with ⟨x, hx, rfl⟩ | rfl
    · rw [adopt_children]
      split_ifs
      · refine List.nodup_append.mpr ⟨h.childNodup x hx, List.nodup_singleton _, ?_⟩
        rintro a ha b hb rfl
        obtain ⟨z, hz, hzid, -⟩ := (h.children x hx a).mp ha
        rw [List.mem_singleton, ← hid] at hb
        exact hfresh z hz (by rw [hzid, hb])
      · exact h.childNodup x hx
    · rw [hchildren]
      exact List.nodup_nil
  · intro hdeny hmixed y hy
    rcases mem_insertUnder.mp hy with ⟨x, hx, rfl⟩ | rfl
    · rw [adopt_parent]
      exact h.flat hdeny hmixed x hx
    · exact hflat hdeny hmixed
  · change 0 ≤ s.nextSnapshot + 1
    omega

/-- No entry has the identifier -1. -/
theorem Inv.map_adopt_root (h : s.Inv) {q : ℤ} (hq : q = -1) :
    s.pool.map (s.adopt q) = s.pool := by
  have hid : ∀ x ∈ s.pool, s.adopt q x = x := by
    intro x hx
    have hpos := (h.given x hx).1
    rw [adopt, if_neg (by omega)]
  rw [List.map_congr_left hid, List.map_id']

/-- **`create_snapshot` gives the next identifier** and puts the snapshot under one that is there. -/
theorem Inv.createSnapshot (h : s.Inv) (name : String) (sizeMb date : ℤ) :
    (s.createSnapshot name sizeMb date).1 = s.nextSnapshot ∧
      (s.createSnapshot name sizeMb date).2.nextSnapshot = s.nextSnapshot + 1 ∧
      (s.createSnapshot name sizeMb date).2.Inv := by
  have hunder : ∀ q, (q = -1 ∨ ∃ y ∈ s.pool, y.id = q) →
      (s.orphans ≠ .deny → s.orphans ≠ .mixed → q = -1) →
      Inv { s with
        pool := s.pool.map (s.adopt q) ++ [⟨s.nextSnapshot, name, sizeMb, date, q, [], false⟩]
        nextSnapshot := s.nextSnapshot + 1 } := by
    intro q hq hflat
    exact h.insertUnder (e := ⟨s.nextSnapshot, name, sizeMb, date, q, [], false⟩) rfl rfl rfl hq hflat
  have hroot : ∀ q, q = -1 → Inv { s with
      pool := s.pool ++ [⟨s.nextSnapshot, name, sizeMb, date, q, [], false⟩]
      nextSnapshot := s.nextSnapshot + 1 } := by
    intro q hq
    have hinv := hunder q (Or.inl hq) (fun _ _ => hq)
    rw [h.map_adopt_root hq] at hinv
    exact hinv
  unfold Snapshots.createSnapshot
  dsimp only
  split
  · rename_i hmode
    split_ifs with hactive
    · have hthere := h.activeThere.resolve_left hactive
      obtain ⟨y, hy, hyid⟩ := hthere
      have hget : s.getSnapshot s.active = some y := by
        rw [← hyid]
        exact h.getSnapshot_of_mem hy
      rw [hget]
      exact ⟨rfl, rfl, hunder s.active (Or.inr ⟨y, hy, hyid⟩) (fun hne => absurd hmode hne)⟩
    · exact ⟨rfl, rfl, hroot s.active (not_not.mp hactive)⟩
  · rename_i hmode
    have hbase := h.base hmode
    split_ifs with hactive
    · have hthere : s.currentBase = -1 ∨ ∃ y ∈ s.pool, y.id = s.currentBase := by
        rw [hbase]
        exact h.activeThere
      exact ⟨rfl, rfl, hunder s.currentBase hthere (fun _ hne => absurd hmode hne)⟩
    · exact ⟨rfl, rfl, hroot s.currentBase (not_not.mp hactive)⟩
  · exact ⟨rfl, rfl, hroot (-1) rfl⟩

/-- The marks of the entries when the active snapshot changes. -/
def remark (id old : ℤ) (x : DiskSnapshot) : DiskSnapshot :=
  let x' := if x.id = id then { x with active := true } else x
  if x'.id = old then { x' with active := false } else x'

@[simp] theorem remark_id (id old : ℤ) (x : DiskSnapshot) : (remark id old x).id = x.id := by
  unfold remark
  dsimp only
  split_ifs <;> rfl

@[simp] theorem remark_parent (id old : ℤ) (x : DiskSnapshot) : (remark id old x).parent = x.parent := by
  unfold remark
  dsimp only
  split_ifs <;> rfl

@[simp] theorem remark_children (id old : ℤ) (x : DiskSnapshot) :
    (remark id old x).children = x.children := by
  unfold remark
  dsimp only
  split_ifs <;> rfl

theorem remark_active {id old : ℤ} (hne : id ≠ old) {x : DiskSnapshot}
    (hx : x.active = true ↔ x.id = old) : (remark id old x).active = true ↔ x.id = id := by
  unfold remark
  dsimp only
  split_ifs with h1 h2 h2
  · exact absurd (h1.symm.trans h2) hne
  · exact iff_of_true rfl h1
  · exact iff_of_false (fun hfalse => hfalse) h1
  · exact iff_of_false (fun ha => h2 (hx.mp ha)) h1

theorem Inv.activeSnapshot (h : s.Inv) (id : ℤ) (revert : Bool) :
    (s.activeSnapshot id revert).2.Inv := by
  unfold Snapshots.activeSnapshot
  by_cases hsame : id = s.active
  · rw [if_pos hsame]
    exact h
  · rw [if_neg hsame]
    cases hget : s.getSnapshot id with
    | none => exact h
    | some x =>
      obtain ⟨hx, hxid⟩ := getSnapshot_eq_some hget
      dsimp only
      by_cases hkeep : s.orphans = .mixed ∧ revert = false
      · rw [if_pos hkeep]
        exact h
      · rw [if_neg hkeep]
        have hpool : modify (modify s.pool id fun x => { x with active := true }) s.active
            (fun x => { x with active := false }) = s.pool.map (remark id s.active) := by
          rw [modify, modify, List.map_map]
          rfl
        rw [hpool]
        have hmem : ∀ {y}, y ∈ s.pool.map (remark id s.active) ↔
            ∃ z ∈ s.pool, remark id s.active z = y := List.mem_map
        refine { ids := ?_, given := ?_, parents := ?_, children := ?_, activeThere := ?_,
                 marks := ?_, older := ?_, childNodup := ?_, flat := ?_, base := ?_,
                 next := h.next }
        · change ((s.pool.map (remark id s.active)).map DiskSnapshot.id).Nodup
          rw [map_id_map (remark_id id s.active)]
          exact h.ids
        · intro y hy
          obtain ⟨z, hz, rfl⟩ := hmem.mp hy
          rw [remark_id]
          exact h.given z hz
        · intro y hy
          obtain ⟨z, hz, rfl⟩ := hmem.mp hy
          rw [remark_parent]
          rcases h.parents z hz with hroot | ⟨w, hw, hwid⟩
          · exact Or.inl hroot
          · exact Or.inr ⟨_, hmem.mpr ⟨w, hw, rfl⟩, by rw [remark_id, hwid]⟩
        · intro y hy c
          obtain ⟨z, hz, rfl⟩ := hmem.mp hy
          rw [remark_children, remark_id, h.children z hz c]
          constructor
          · rintro ⟨w, hw, hwid, hwpar⟩
            exact ⟨_, hmem.mpr ⟨w, hw, rfl⟩, by rw [remark_id, hwid], by rw [remark_parent, hwpar]⟩
          · rintro ⟨w, hw, hwid, hwpar⟩
            obtain ⟨v, hv, rfl⟩ := hmem.mp hw
            rw [remark_id] at hwid
            rw [remark_parent] at hwpar
            exact ⟨v, hv, hwid, hwpar⟩
        · exact Or.inr ⟨_, hmem.mpr ⟨x, hx, rfl⟩, by rw [remark_id, hxid]⟩
        · intro y hy
          obtain ⟨z, hz, rfl⟩ := hmem.mp hy
          rw [remark_active hsame (h.marks z hz), remark_id]
        · intro y hy
          obtain ⟨z, hz, rfl⟩ := hmem.mp hy
          rw [remark_parent, remark_id]
          exact h.older z hz
        · intro y hy
          obtain ⟨z, hz, rfl⟩ := hmem.mp hy
          rw [remark_children]
          exact h.childNodup z hz
        · intro hdeny hmixed y hy
          obtain ⟨z, hz, rfl⟩ := hmem.mp hy
          rw [remark_parent]
          exact h.flat hdeny hmixed z hz
        · intro hmixed
          exact if_pos hmixed

/-! ## Deletion without mending -/

/-- The state without an entry. -/
def removed (s : Snapshots) (id : ℤ) : Snapshots :=
  { s with pool := s.pool.filter fun x => x.id ≠ id }

theorem mem_removed {id : ℤ} {y : DiskSnapshot} : y ∈ (s.removed id).pool ↔ y ∈ s.pool ∧ y.id ≠ id := by
  rw [removed, List.mem_filter, decide_eq_true_eq]

/-- A snapshot without parent and without children that is not active is just removed. -/
theorem Inv.removed (h : s.Inv) {x : DiskSnapshot} (hx : x ∈ s.pool) (hroot : x.parent = -1)
    (hchildren : x.children = []) (hactive : x.id ≠ s.active) : (s.removed x.id).Inv := by
  have hparent : ∀ y ∈ s.pool, y.parent ≠ x.id := by
    intro y hy hpar
    have hmem := (h.children x hx y.id).mpr ⟨y, hy, rfl, hpar⟩
    rw [hchildren] at hmem
    exact List.not_mem_nil hmem
  refine { ids := ?_, given := ?_, parents := ?_, children := ?_, activeThere := ?_, marks := ?_,
           older := ?_, childNodup := ?_, flat := ?_, base := h.base, next := h.next }
  · exact h.ids.sublist (List.filter_sublist.map _)
  · intro y hy
    exact h.given y (mem_removed.mp hy).1
  · intro y hy
    have hy' := (mem_removed.mp hy).1
    rcases h.parents y hy' with hnone | ⟨z, hz, hzid⟩
    · exact Or.inl hnone
    · refine Or.inr ⟨z, mem_removed.mpr ⟨hz, ?_⟩, hzid⟩
      rw [hzid]
      exact hparent y hy'
  · intro y hy c
    obtain ⟨hy', hyid⟩ := mem_removed.mp hy
    rw [h.children y hy' c]
    constructor
    · rintro ⟨z, hz, hzid, hzpar⟩
      refine ⟨z, mem_removed.mpr ⟨hz, ?_⟩, hzid, hzpar⟩
      -- The deleted snapshot has no parent, so it is not this child.
      intro heq
      rw [h.eq_of_id hz hx heq, hroot] at hzpar
      have := (h.given y hy').1
      omega
    · rintro ⟨z, hz, hzid, hzpar⟩
      exact ⟨z, (mem_removed.mp hz).1, hzid, hzpar⟩
  · rcases h.activeThere with hnone | ⟨y, hy, hyid⟩
    · exact Or.inl hnone
    · refine Or.inr ⟨y, mem_removed.mpr ⟨hy, ?_⟩, hyid⟩
      rw [hyid]
      exact hactive.symm
  · intro y hy
    exact h.marks y (mem_removed.mp hy).1
  · intro y hy
    exact h.older y (mem_removed.mp hy).1
  · intro y hy
    exact h.childNodup y (mem_removed.mp hy).1
  · intro hdeny hmixed y hy
    exact h.flat hdeny hmixed y (mem_removed.mp hy).1

/-- What is left behind when the snapshot has a child or is the active one. -/
theorem Inv.of_tree_removed (h : s.Inv) {x : DiskSnapshot} (hx : x ∈ s.pool)
    (htree : (s.removed x.id).Tree) : x.children = [] ∧ x.id ≠ s.active := by
  have hpos := (h.given x hx).1
  constructor
  · refine List.eq_nil_iff_forall_not_mem.mpr ?_
    intro c hc
    obtain ⟨z, hz, -, hzpar⟩ := (h.children x hx c).mp hc
    have holder := h.older z hz
    rcases htree.parents z (mem_removed.mpr ⟨hz, by omega⟩) with hnone | ⟨y, hy, hyid⟩
    · omega
    · exact (mem_removed.mp hy).2 (by rw [hyid, hzpar])
  · intro heq
    rcases htree.activeThere with hnone | ⟨y, hy, hyid⟩
    · change s.active = -1 at hnone
      omega
    · exact (mem_removed.mp hy).2 (by rw [hyid]; exact heq.symm)

/-! ## Deletion under a parent -/

section Relink

variable {x p : DiskSnapshot} {wasActive : Bool}

@[simp] theorem relink_id (y : DiskSnapshot) : (relink x p wasActive y).id = y.id := by
  unfold relink
  dsimp only
  split_ifs <;> rfl

theorem card_eq_one_and_mem (hlen : x.children.length ≤ 1) {k : ℤ} :
    x.children.toFinset.card = 1 ∧ k ∈ x.children.toFinset ↔ k ∈ x.children := by
  rw [List.mem_toFinset]
  constructor
  · exact fun h => h.2
  · intro hk
    refine ⟨?_, hk⟩
    obtain ⟨c, hc⟩ : ∃ c, x.children = [c] := by
      apply List.length_eq_one_iff.mp
      have := List.length_pos_of_mem hk
      omega
    rw [hc]
    simp

theorem relink_parent (hlen : x.children.length ≤ 1) (y : DiskSnapshot) :
    (relink x p wasActive y).parent = if y.id ∈ x.children then p.id else y.parent := by
  simp only [relink, card_eq_one_and_mem hlen]
  split_ifs <;> rfl

theorem relink_children (y : DiskSnapshot) :
    (relink x p wasActive y).children =
      if y.id = p.id then
        (if x.children.toFinset.card = 1 then
          p.children.toFinset.erase x.id ∪ x.children.toFinset
        else p.children.toFinset.erase x.id).sort (· ≤ ·)
      else y.children := by
  unfold relink
  dsimp only
  split_ifs <;> rfl

theorem mem_relink_children (hlen : x.children.length ≤ 1) (y : DiskSnapshot) (k : ℤ) :
    k ∈ (relink x p wasActive y).children ↔
      if y.id = p.id then (k ∈ p.children ∧ k ≠ x.id) ∨ k ∈ x.children else k ∈ y.children := by
  rw [relink_children]
  by_cases hy : y.id = p.id
  · rw [if_pos hy, if_pos hy, Finset.mem_sort, ← card_eq_one_and_mem hlen (k := k)]
    split_ifs with hcard
    · rw [Finset.mem_union, Finset.mem_erase, List.mem_toFinset, and_comm (a := k ≠ x.id)]
      simp only [hcard, true_and]
    · rw [Finset.mem_erase, List.mem_toFinset, and_comm (a := k ≠ x.id)]
      simp only [hcard, false_and, or_false]
  · rw [if_neg hy, if_neg hy]

theorem relink_active (y : DiskSnapshot) :
    (relink x p wasActive y).active = true ↔ (y.id = p.id ∧ wasActive = true) ∨ y.active = true := by
  unfold relink
  dsimp only
  split_ifs with h1 h2 h3 h2 h3 <;> simp_all

end Relink

/-- The state after the deletion of `x` under its parent `p`. -/
def mended (s : Snapshots) (x p : DiskSnapshot) : Snapshots :=
  { s with
    pool := (s.pool.map (relink x p (s.active = x.id))).filter fun y => y.id ≠ x.id
    active := if s.active = x.id then x.parent else s.active }

theorem mem_mended {x p y : DiskSnapshot} :
    y ∈ (s.mended x p).pool ↔
      ∃ z ∈ s.pool, z.id ≠ x.id ∧ relink x p (s.active = x.id) z = y := by
  rw [mended, List.mem_filter, List.mem_map, decide_eq_true_eq]
  constructor
  · rintro ⟨⟨z, hz, rfl⟩, hid⟩
    rw [relink_id] at hid
    exact ⟨z, hz, hid, rfl⟩
  · rintro ⟨z, hz, hid, rfl⟩
    refine ⟨⟨z, hz, rfl⟩, ?_⟩
    rw [relink_id]
    exact hid

/-- **A deletion under a parent mends the tree**: the parent takes the child and the active mark. -/
theorem Inv.mended (h : s.Inv) {x p : DiskSnapshot} (hx : x ∈ s.pool) (hp : p ∈ s.pool)
    (hpar : x.parent = p.id) (hlen : x.children.length ≤ 1)
    (hmode : s.orphans = .mixed → x.id ≠ s.active)
    (htree : s.orphans = .deny ∨ s.orphans = .mixed) : (s.mended x p).Inv := by
  have hpx : p.id < x.id := hpar ▸ h.older x hx
  have hchild : ∀ z ∈ s.pool, z.id ∈ x.children ↔ z.parent = x.id := by
    intro z hz
    rw [h.children x hx z.id]
    constructor
    · rintro ⟨w, hw, hwid, hwpar⟩
      rw [← h.eq_of_id hw hz hwid]
      exact hwpar
    · intro hzpar
      exact ⟨z, hz, rfl, hzpar⟩
  have hkeep : ∀ z ∈ s.pool, z.id ≠ x.id →
      relink x p (s.active = x.id) z ∈ (s.mended x p).pool :=
    fun z hz hid => mem_mended.mpr ⟨z, hz, hid, rfl⟩
  refine { ids := ?_, given := ?_, parents := ?_, children := ?_, activeThere := ?_, marks := ?_,
           older := ?_, childNodup := ?_, flat := ?_, base := ?_, next := h.next }
  · have hnodup : ((s.pool.map (relink x p (s.active = x.id))).map DiskSnapshot.id).Nodup := by
      rw [map_id_map relink_id]
      exact h.ids
    exact hnodup.sublist (List.filter_sublist.map _)
  · intro y hy
    obtain ⟨z, hz, -, rfl⟩ := mem_mended.mp hy
    rw [relink_id]
    exact h.given z hz
  · intro y hy
    obtain ⟨z, hz, hid, rfl⟩ := mem_mended.mp hy
    rw [relink_parent hlen]
    split_ifs with hzc
    · exact Or.inr ⟨_, hkeep p hp (by omega), relink_id p⟩
    · rcases h.parents z hz with hroot | ⟨w, hw, hwid⟩
      · exact Or.inl hroot
      · have hne : w.id ≠ x.id := by
          intro heq
          exact hzc ((hchild z hz).mpr (by rw [← hwid, heq]))
        exact Or.inr ⟨_, hkeep w hw hne, by rw [relink_id, hwid]⟩
  · intro y hy k
    obtain ⟨z, hz, hid, rfl⟩ := mem_mended.mp hy
    rw [mem_relink_children hlen, relink_id]
    by_cases hzp : z.id = p.id
    · -- The parent: its other children, and the child of the deleted snapshot.
      rw [if_pos hzp]
      have hzeq := h.eq_of_id hz hp hzp
      constructor
      · rintro (⟨hk, hkx⟩ | hk)
        · obtain ⟨w, hw, hwid, hwpar⟩ := (h.children p hp k).mp hk
          refine ⟨_, hkeep w hw (by rw [hwid]; exact hkx), by rw [relink_id, hwid], ?_⟩
          rw [relink_parent hlen, hwpar, hzp]
          split_ifs <;> rfl
        · obtain ⟨w, hw, hwid, hwpar⟩ := (h.children x hx k).mp hk
          have hwold := h.older w hw
          refine ⟨_, hkeep w hw (by omega), by rw [relink_id, hwid], ?_⟩
          rw [relink_parent hlen, if_pos (by rw [hwid]; exact hk), hzp]
      · rintro ⟨w, hw, hwid, hwpar⟩
        obtain ⟨v, hv, hvid, rfl⟩ := mem_mended.mp hw
        rw [relink_id] at hwid
        rw [relink_parent hlen] at hwpar
        split_ifs at hwpar with hvc
        · exact Or.inr (hwid ▸ hvc)
        · refine Or.inl ⟨(h.children p hp k).mpr ⟨v, hv, hwid, by rw [hwpar, hzp]⟩, ?_⟩
          rw [← hwid]
          exact hvid
    · rw [if_neg hzp, h.children z hz k]
      constructor
      · rintro ⟨w, hw, hwid, hwpar⟩
        have hwx : w.id ≠ x.id := by
          intro heq
          rw [h.eq_of_id hw hx heq, hpar] at hwpar
          exact hzp hwpar.symm
        refine ⟨_, hkeep w hw hwx, by rw [relink_id, hwid], ?_⟩
        rw [relink_parent hlen, if_neg, hwpar]
        intro hwc
        exact hid (hwpar ▸ (hchild w hw).mp hwc)
      · rintro ⟨w, hw, hwid, hwpar⟩
        obtain ⟨v, hv, -, rfl⟩ := mem_mended.mp hw
        rw [relink_id] at hwid
        rw [relink_parent hlen] at hwpar
        split_ifs at hwpar with hvc
        · exact absurd hwpar.symm hzp
        · exact ⟨v, hv, hwid, hwpar⟩
  · change (if s.active = x.id then x.parent else s.active) = -1 ∨
      ∃ y ∈ (s.mended x p).pool, y.id = if s.active = x.id then x.parent else s.active
    split_ifs with hact
    · exact Or.inr ⟨_, hkeep p hp (by omega), by rw [relink_id, hpar]⟩
    · rcases h.activeThere with hnone | ⟨y, hy, hyid⟩
      · exact Or.inl hnone
      · exact Or.inr ⟨_, hkeep y hy (by rw [hyid]; exact hact), by rw [relink_id, hyid]⟩
  · intro y hy
    obtain ⟨z, hz, hid, rfl⟩ := mem_mended.mp hy
    change _ ↔ (relink x p (s.active = x.id) z).id =
      if s.active = x.id then x.parent else s.active
    rw [relink_active, relink_id, h.marks z hz, decide_eq_true_eq]
    split_ifs with hact
    · rw [hpar]
      constructor
      · rintro (⟨hzp, -⟩ | hza)
        · exact hzp
        · exact absurd (hza.trans hact) hid
      · exact fun hzp => Or.inl ⟨hzp, hact⟩
    · constructor
      · rintro (⟨-, hact'⟩ | hza)
        · exact absurd hact' hact
        · exact hza
      · exact Or.inr
  · intro y hy
    obtain ⟨z, hz, hid, rfl⟩ := mem_mended.mp hy
    rw [relink_parent hlen, relink_id]
    have hzold := h.older z hz
    split_ifs with hzc
    · have := (hchild z hz).mp hzc
      omega
    · exact hzold
  · intro y hy
    obtain ⟨z, hz, hid, rfl⟩ := mem_mended.mp hy
    rw [relink_children]
    split_ifs
    · exact Finset.sort_nodup _ _
    · exact Finset.sort_nodup _ _
    · exact h.childNodup z hz
  · intro hdeny hmixed
    rcases htree with hd | hm
    · exact absurd hd hdeny
    · exact absurd hm hmixed
  · intro hmixed
    change s.currentBase = if s.active = x.id then x.parent else s.active
    rw [if_neg (hmode hmixed).symm]
    exact h.base hmixed

/-! ## Tested deletions -/

/-- What the tests of a deletion make sure of. -/
def Allowed (s : Snapshots) (x : DiskSnapshot) : Prop :=
  (s.orphans = .deny → x.children.length ≤ 1) ∧
    (s.orphans = .mixed → x.id ≠ s.active ∧ x.children = [])

theorem allowed_of_testDelete {id : ℤ} {persistent : Bool} (h : s.testDelete id persistent = none) :
    ∃ x ∈ s.pool, x.id = id ∧ s.Allowed x := by
  unfold testDelete at h
  cases hget : s.getSnapshot id with
  | none => simp [hget] at h
  | some x =>
    obtain ⟨hx, hxid⟩ := getSnapshot_eq_some hget
    refine ⟨x, hx, hxid, ?_⟩
    rw [hget] at h
    dsimp only at h
    constructor
    · intro hdeny
      rw [hdeny] at h
      dsimp only at h
      split_ifs at h with h1 h2 h3 h4 <;> omega
    · intro hmixed
      rw [hmixed] at h
      dsimp only at h
      split_ifs at h with h1 h2
      rw [hxid]
      exact ⟨h1, List.length_eq_zero_iff.mp (not_not.mp h2)⟩

theorem Tree.allowed_of_testDeleteImage (htree : s.Tree) {id : ℤ}
    (h : s.testDeleteImage id = none) : ∃ x ∈ s.pool, x.id = id ∧ s.Allowed x := by
  unfold testDeleteImage at h
  cases hget : s.getSnapshot id with
  | none => simp [hget] at h
  | some x =>
    obtain ⟨hx, hxid⟩ := getSnapshot_eq_some hget
    refine ⟨x, hx, hxid, ?_⟩
    rw [hget] at h
    dsimp only at h
    constructor
    · intro hdeny
      rw [if_pos (Or.inl hdeny)] at h
      split_ifs at h with h1 h2
      simp [not_not.mp h2]
    · intro hmixed
      rw [if_pos (Or.inr hmixed)] at h
      split_ifs at h with h1 h2
      exact ⟨fun heq => h1 ((htree.marks x hx).mpr heq), not_not.mp h2⟩

/-- A deletion removes the entry, or it removes it under its parent. -/
theorem Inv.deleteSnapshot_cases (h : s.Inv) {x : DiskSnapshot} (hx : x ∈ s.pool) :
    (((s.orphans = .deny ∨ s.orphans = .mixed) ∧ x.parent ≠ -1) ∧
        ∃ p ∈ s.pool, x.parent = p.id ∧ s.deleteSnapshot x.id = s.mended x p) ∨
      (¬ ((s.orphans = .deny ∨ s.orphans = .mixed) ∧ x.parent ≠ -1) ∧
        s.deleteSnapshot x.id = s.removed x.id) := by
  unfold deleteSnapshot
  rw [h.getSnapshot_of_mem hx]
  dsimp only
  by_cases hmode : s.orphans = .deny ∨ s.orphans = .mixed
  · rw [if_pos hmode]
    by_cases hroot : x.parent = -1
    · rw [if_pos hroot]
      exact Or.inr ⟨fun hno => hno.2 hroot, rfl⟩
    · rw [if_neg hroot]
      obtain ⟨p, hp, hpid⟩ := (h.parents x hx).resolve_left hroot
      rw [← hpid, h.getSnapshot_of_mem hp]
      refine Or.inl ⟨⟨hmode, by rw [hpid]; exact hroot⟩, p, hp, rfl, ?_⟩
      rw [Snapshots.mended, hpid]
  · rw [if_neg hmode]
    exact Or.inr ⟨fun hno => hmode hno.1, rfl⟩

/-- **A tested deletion keeps the tree exactly when it mends it.** -/
theorem Inv.deleteSnapshot (h : s.Inv) {x : DiskSnapshot} (hx : x ∈ s.pool) (hallowed : s.Allowed x) :
    (s.Mended x.id → (s.deleteSnapshot x.id).Inv) ∧
      ((s.deleteSnapshot x.id).Tree → s.Mended x.id) := by
  rcases h.deleteSnapshot_cases hx with ⟨⟨hmode, hroot⟩, p, hp, hpar, heq⟩ | ⟨hno, heq⟩
  · have hlen : x.children.length ≤ 1 := by
      rcases hmode with hdeny | hmixed
      · exact hallowed.1 hdeny
      · simp [(hallowed.2 hmixed).2]
    rw [heq]
    refine ⟨fun _ => h.mended hx hp hpar hlen (fun hm => (hallowed.2 hm).1) hmode, fun _ => ?_⟩
    rcases hmode with hdeny | hmixed
    · rw [Mended, hdeny]
      intro y hy hyid hyroot
      rw [h.eq_of_id hy hx hyid] at hyroot
      exact absurd hyroot hroot
    · rw [Mended, hmixed]
      trivial
  · -- The snapshot has no parent: it is only removed.
    have hroot : x.parent = -1 := by
      by_contra hne
      by_cases hmode : s.orphans = .deny ∨ s.orphans = .mixed
      · exact hno ⟨hmode, hne⟩
      · exact hne (h.flat (fun hd => hmode (Or.inl hd)) (fun hm => hmode (Or.inr hm)) x hx)
    have hflat : s.orphans ≠ .deny → s.orphans ≠ .mixed → x.children = [] := by
      intro hdeny hmixed
      refine List.eq_nil_iff_forall_not_mem.mpr ?_
      intro c hc
      obtain ⟨z, hz, -, hzpar⟩ := (h.children x hx c).mp hc
      rw [h.flat hdeny hmixed z hz] at hzpar
      have := (h.given x hx).1
      omega
    rw [heq]
    constructor
    · intro hmended
      have hboth : x.children = [] ∧ x.id ≠ s.active := by
        unfold Mended at hmended
        split at hmended
        · rename_i hmixed
          exact (hallowed.2 hmixed).symm
        · exact hmended x hx rfl hroot
        · rename_i hmixed hdeny
          exact ⟨hflat hdeny hmixed, hmended⟩
      exact h.removed hx hroot hboth.1 hboth.2
    · intro htree
      have hboth := h.of_tree_removed hx htree
      unfold Mended
      split
      · trivial
      · intro y hy hyid _
        rw [h.eq_of_id hy hx hyid]
        exact hboth
      · exact hboth.2

/-- One operation of a run. -/
theorem Inv.step (h : s.Inv) {op : Op} {t : Snapshots} (hstep : s.step op = some t) :
    (s.MendedOp op → t.Inv) ∧ (t.Tree → s.MendedOp op) := by
  cases op with
  | create name sizeMb date =>
    obtain rfl := Option.some.inj hstep
    exact ⟨fun _ => (h.createSnapshot name sizeMb date).2.2, fun _ => trivial⟩
  | setActive id revert =>
    obtain rfl := Option.some.inj hstep
    exact ⟨fun _ => h.activeSnapshot id revert, fun _ => trivial⟩
  | delete id persistent =>
    simp only [Snapshots.step] at hstep
    split_ifs at hstep with htest
    obtain rfl := Option.some.inj hstep
    obtain ⟨x, hx, rfl, hallowed⟩ := allowed_of_testDelete htest
    exact h.deleteSnapshot hx hallowed
  | deleteImage id =>
    simp only [Snapshots.step] at hstep
    split_ifs at hstep with htest
    obtain rfl := Option.some.inj hstep
    obtain ⟨x, hx, rfl, hallowed⟩ := h.toTree.allowed_of_testDeleteImage htest
    exact h.deleteSnapshot hx hallowed

/-! ## Identifiers -/

theorem nextSnapshot_deleteSnapshot (id : ℤ) :
    (s.deleteSnapshot id).nextSnapshot = s.nextSnapshot := by
  unfold deleteSnapshot
  split
  · rfl
  · dsimp only
    split
    · split
      · rfl
      · split <;> rfl
    · rfl

theorem nextSnapshot_activeSnapshot (id : ℤ) (revert : Bool) :
    (s.activeSnapshot id revert).2.nextSnapshot = s.nextSnapshot := by
  unfold activeSnapshot
  split
  · rfl
  · split
    · rfl
    · split <;> rfl

/-- Identifiers are given out in order. -/
theorem Inv.nextSnapshot_le (h : s.Inv) {op : Op} {t : Snapshots} (hstep : s.step op = some t) :
    s.nextSnapshot ≤ t.nextSnapshot := by
  cases op with
  | create name sizeMb date =>
    obtain rfl := Option.some.inj hstep
    rw [(h.createSnapshot name sizeMb date).2.1]
    omega
  | setActive id revert =>
    obtain rfl := Option.some.inj hstep
    rw [nextSnapshot_activeSnapshot]
  | delete id persistent =>
    simp only [Snapshots.step] at hstep
    split_ifs at hstep
    obtain rfl := Option.some.inj hstep
    rw [nextSnapshot_deleteSnapshot]
  | deleteImage id =>
    simp only [Snapshots.step] at hstep
    split_ifs at hstep
    obtain rfl := Option.some.inj hstep
    rw [nextSnapshot_deleteSnapshot]

theorem Inv.of_reach {t : Snapshots} (h : s.Inv)
    (hrun : Transition.Reach Snapshots.step MendedOp s t) :
    t.Inv ∧ s.nextSnapshot ≤ t.nextSnapshot := by
  refine hrun.inv (P := fun t => t.Inv ∧ s.nextSnapshot ≤ t.nextSnapshot) ⟨h, le_refl _⟩ ?_
  rintro u op v ⟨hu, hle⟩ hmended hstep
  exact ⟨(hu.step hstep).1 hmended, hle.trans (hu.nextSnapshot_le hstep)⟩

end Steps

/-- **The tree of the snapshots.**  In every run of a new list, in any mode, whose deletions mend what
pointed to the snapshot, the snapshots are a tree; a new identifier is not given out again; and the
next operation keeps the tree exactly when it meets the condition too. -/
theorem tree_of_mended (orphans : AllowOrphansMode) {s : Snapshots}
    (hrun : Transition.Reach step MendedOp (new orphans) s) :
    s.Tree ∧
      (∀ name sizeMb date t, Transition.Reach step MendedOp (s.createSnapshot name sizeMb date).2 t →
        ∀ name' sizeMb' date', (t.createSnapshot name' sizeMb' date').1 ≠
          (s.createSnapshot name sizeMb date).1) ∧
      ∀ op t, s.step op = some t → (t.Tree ↔ s.MendedOp op) := by
  have hinv := (Inv.of_reach (inv_new orphans) hrun).1
  refine ⟨hinv.toTree, ?_, ?_⟩
  · intro name sizeMb date t hlater name' sizeMb' date'
    obtain ⟨hid, hnext, hafter⟩ := hinv.createSnapshot name sizeMb date
    obtain ⟨ht, hle⟩ := hafter.of_reach hlater
    rw [(ht.createSnapshot name' sizeMb' date').1, hid]
    omega
  · intro op t hstep
    exact ⟨(hinv.step hstep).2, fun hmended => ((hinv.step hstep).1 hmended).toTree⟩

/-- Two snapshots in a chain are made, and the second one is deleted: the first one is active again. -/
def chainRun : List Op :=
  [.create "first" 10 0, .setActive 0 false, .create "second" 10 1, .setActive 1 false,
    .delete 1 false]

instance (s : Snapshots) (id : ℤ) : Decidable (s.Mended id) :=
  match s with
  | ⟨.mixed, _, _, _, _⟩ => isTrue trivial
  | ⟨.deny, pool, _, active, _⟩ => inferInstanceAs (Decidable
      (∀ x ∈ pool, x.id = id → x.parent = -1 → x.children = [] ∧ id ≠ active))
  | ⟨.allow, _, _, active, _⟩ => inferInstanceAs (Decidable (id ≠ active))
  | ⟨.format, _, _, active, _⟩ => inferInstanceAs (Decidable (id ≠ active))
  | ⟨.linear, _, _, active, _⟩ => inferInstanceAs (Decidable (id ≠ active))

instance (s : Snapshots) (op : Op) : Decidable (s.MendedOp op) :=
  match op with
  | .delete id _ => inferInstanceAs (Decidable (s.Mended id))
  | .deleteImage id => inferInstanceAs (Decidable (s.Mended id))
  | .create _ _ _ => isTrue trivial
  | .setActive _ _ => isTrue trivial

theorem tree_chainRun :
    ∃ s, Transition.runChecked step MendedOp (new .deny) chainRun = some s ∧ s.Tree ∧ s.active = 0 := by
  refine ⟨_, rfl, (tree_of_mended .deny (Transition.reach_of_runChecked chainRun rfl)).1, ?_⟩
  decide

/-- The snapshot `k` has the parent `p`. -/
def Parent (s : Snapshots) (p k : ℤ) : Prop := ∃ x ∈ s.pool, x.id = k ∧ x.parent = p

/-- **The snapshots are a forest.**  In every such run each snapshot comes from one without a parent, and
none from itself; in the modes without a base nothing has a parent. -/
theorem forest_of_mended (orphans : AllowOrphansMode) {s : Snapshots}
    (hrun : Transition.Reach step MendedOp (new orphans) s) :
    (∀ x ∈ s.pool, ∃ r ∈ s.pool, r.parent = -1 ∧ Relation.ReflTransGen s.Parent r.id x.id) ∧
      (∀ k, ¬ Relation.TransGen s.Parent k k) ∧
      (s.orphans ≠ .deny → s.orphans ≠ .mixed → ∀ x ∈ s.pool, x.parent = -1) := by
  have h := (Inv.of_reach (inv_new orphans) hrun).1
  refine ⟨?_, ?_, h.flat⟩
  · intro x hx
    -- a parent has a smaller number
    generalize hn : x.id.toNat = n
    induction n using Nat.strong_induction_on generalizing x with
    | _ n ih =>
      rcases h.parents x hx with hroot | ⟨y, hy, hparent⟩
      · exact ⟨x, hx, hroot, .refl⟩
      · have hlt := h.older x hx
        have hpos := (h.given y hy).1
        obtain ⟨r, hr, hroot, hchain⟩ := ih y.id.toNat (by omega) y hy rfl
        exact ⟨r, hr, hroot, hchain.tail ⟨x, hx, rfl, hparent.symm⟩⟩
  · intro k hcycle
    have hlt : ∀ i, Relation.TransGen s.Parent k i → k < i := by
      intro i hi
      induction hi with
      | single hp =>
        obtain ⟨x, hx, rfl, rfl⟩ := hp
        exact h.older x hx
      | tail _ hp ih =>
        obtain ⟨x, hx, rfl, rfl⟩ := hp
        exact ih.trans (h.older x hx)
    exact lt_irrefl k (hlt k hcycle)

theorem forest_chainRun : ∃ s, Transition.runChecked step MendedOp (new .deny)
    (chainRun.take 4) = some s ∧ s.Parent 0 1 ∧ ∀ k, ¬ Relation.TransGen s.Parent k k := by
  refine ⟨_, rfl, ⟨_, List.mem_cons_of_mem _ (List.mem_singleton_self _), rfl, rfl⟩, ?_⟩
  exact (forest_of_mended .deny (Transition.reach_of_runChecked (chainRun.take 4) rfl)).2.1

/-- **A deletion that leaves a hole**: in the mode `DENY` the first snapshot of a chain is deleted and
its child keeps it as parent; in the mode `ALLOW` the active snapshot is deleted and stays active. -/
theorem not_tree_after_delete :
    (∃ s, Transition.Run step (new .deny) s ∧ (∃ x ∈ s.pool, x.parent = 0) ∧
      (∀ y ∈ s.pool, y.id ≠ 0) ∧ ¬ s.Tree) ∧
    ∃ s, Transition.Run step (new .allow) s ∧ s.active = 0 ∧ s.pool = [] ∧ ¬ s.Tree := by
  refine ⟨⟨_, Transition.reach_of_runEvents (P := fun _ => True)
    [.create "first" 10 0, .setActive 0 false, .create "second" 10 1, .setActive 1 false,
      .delete 0 false] (fun _ _ => trivial) rfl, by decide, by decide, ?_⟩,
    _, Transition.reach_of_runEvents (P := fun _ => True)
    [.create "first" 10 0, .setActive 0 true, .delete 0 false] (fun _ _ => trivial) rfl, by decide,
    by decide, ?_⟩
  · intro h
    have hparents := h.parents
    revert hparents
    decide
  · intro h
    have hactive := h.activeThere
    revert hactive
    decide

end Snapshots
