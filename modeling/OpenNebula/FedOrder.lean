/-
# The order of the federated records in a slave zone

A slave executes a federated record only if its last federated index is the one before it.  While
the federated log of the master only grows, each call that is ever sent names a record of it and
the index before (`FedGenuine`).  So whatever calls are lost, repeated or reordered, and whatever the
cursors of the master say, the records that a slave executes are the next ones of the master's
federated log, one after the other.
-/
import OpenNebula.FedReplica
import OpenNebula.LogContents
import OpenNebula.Transition

open Transition

/-! ## Sorted sets of indexes -/

/-- Two sets one below the other, in order. -/
theorem Finset.sort_union_of_lt {S T : Finset ℕ} (h : ∀ a ∈ S, ∀ b ∈ T, a < b) :
    (S ∪ T).sort (· ≤ ·) = S.sort (· ≤ ·) ++ T.sort (· ≤ ·) := by
  have hunion : S ∪ T = (S.sort (· ≤ ·) ++ T.sort (· ≤ ·)).toFinset := by
    rw [List.toFinset_append, Finset.sort_toFinset, Finset.sort_toFinset]
  have hnodup : (S.sort (· ≤ ·) ++ T.sort (· ≤ ·)).Nodup := by
    refine (S.sort_nodup (· ≤ ·)).append (T.sort_nodup (· ≤ ·)) ?_
    intro a ha hb
    rw [Finset.mem_sort] at ha hb
    exact absurd (h a ha a hb) (lt_irrefl a)
  rw [hunion, List.toFinset_sort (· ≤ ·) hnodup, List.pairwise_append]
  refine ⟨S.pairwise_sort (· ≤ ·), T.pairwise_sort (· ≤ ·), ?_⟩
  intro a ha b hb
  rw [Finset.mem_sort] at ha hb
  exact le_of_lt (h a ha b hb)

namespace LogDB

/-! ## The federated log -/

/-- `a` is the federated index before `b`. -/
structure FedPrev (l : LogDB) (a b : ℕ) : Prop where
  left : a ∈ l.fedLog
  right : b ∈ l.fedLog
  lt : a < b
  next : ∀ f ∈ l.fedLog, f < b → f ≤ a

theorem previousFederated_eq_some {l : LogDB} {a b : ℕ} :
    l.previousFederated b = some a ↔ l.FedPrev a b := by
  unfold previousFederated
  constructor
  · intro h
    split at h
    · rename_i hne
      rw [Option.some.injEq] at h
      have hmem := Finset.max'_mem _ hne
      rw [h, Finset.mem_filter] at hmem
      obtain ⟨ha, hb, hlt⟩ := hmem
      refine ⟨ha, hb, hlt, ?_⟩
      intro f hf hfb
      rw [← h]
      exact Finset.le_max' _ f (Finset.mem_filter.mpr ⟨hf, hb, hfb⟩)
    · exact absurd h (by simp)
  · intro h
    have hmem : a ∈ l.fedLog.filter (fun f => b ∈ l.fedLog ∧ f < b) :=
      Finset.mem_filter.mpr ⟨h.left, h.right, h.lt⟩
    rw [dif_pos ⟨a, hmem⟩, Option.some.injEq]
    apply le_antisymm
    · apply Finset.max'_le
      intro f hf
      obtain ⟨h1, -, h3⟩ := Finset.mem_filter.mp hf
      exact h.next f h1 h3
    · exact Finset.le_max' _ a hmem

theorem lastFederated_eq_some {l : LogDB} {a : ℕ} :
    l.lastFederated = some a ↔ a ∈ l.fedLog ∧ ∀ f ∈ l.fedLog, f ≤ a := by
  unfold lastFederated
  constructor
  · intro h
    split at h
    · rename_i hne
      rw [Option.some.injEq] at h
      rw [← h]
      exact ⟨Finset.max'_mem _ hne, fun f hf => Finset.le_max' _ f hf⟩
    · exact absurd h (by simp)
  · rintro ⟨hmem, hmax⟩
    rw [dif_pos ⟨a, hmem⟩, Option.some.injEq]
    exact le_antisymm (Finset.max'_le _ _ _ hmax) (Finset.le_max' _ a hmem)

/-- The federated indexes after `a`, in order. -/
def federatedAfter (l : LogDB) : Option ℕ → List ℕ
  | none => []
  | some a => (l.fedLog.filter (fun f => a < f)).sort (· ≤ ·)

/-- The federated indexes after `a`, up to `b`, in order. -/
def federatedUpTo (l : LogDB) (a b : ℕ) : List ℕ :=
  (l.fedLog.filter (fun f => a < f ∧ f ≤ b)).sort (· ≤ ·)

theorem federatedUpTo_self (l : LogDB) (a : ℕ) : l.federatedUpTo a a = [] := by
  have hempty : l.fedLog.filter (fun f => a < f ∧ f ≤ a) = ∅ := by
    apply Finset.filter_eq_empty_iff.mpr
    intro f _
    omega
  rw [federatedUpTo, hempty, Finset.sort_empty]

/-- One record further. -/
theorem FedPrev.federatedUpTo {l : LogDB} {a b c : ℕ} (h : l.FedPrev b c) (hab : a ≤ b) :
    l.federatedUpTo a c = l.federatedUpTo a b ++ [c] := by
  have hunion : l.fedLog.filter (fun f => a < f ∧ f ≤ c) =
      l.fedLog.filter (fun f => a < f ∧ f ≤ b) ∪ {c} := by
    ext f
    rw [Finset.mem_union, Finset.mem_filter, Finset.mem_filter, Finset.mem_singleton]
    constructor
    · rintro ⟨hf, haf, hfc⟩
      rcases Nat.lt_or_eq_of_le hfc with hlt | heq
      · exact Or.inl ⟨hf, haf, h.next f hf hlt⟩
      · exact Or.inr heq
    · have := h.lt
      rintro (⟨hf, haf, hfb⟩ | rfl)
      · exact ⟨hf, haf, by omega⟩
      · exact ⟨h.right, by omega, le_rfl⟩
  unfold LogDB.federatedUpTo
  rw [hunion, Finset.sort_union_of_lt, Finset.sort_singleton]
  intro f hf g hg
  rw [Finset.mem_singleton.mp hg]
  have := (Finset.mem_filter.mp hf).2.2
  have := h.lt
  omega

theorem federatedUpTo_isPrefix (l : LogDB) (a b : ℕ) :
    l.federatedUpTo a b <+: l.federatedAfter (some a) := by
  have hunion : l.fedLog.filter (fun f => a < f) =
      l.fedLog.filter (fun f => a < f ∧ f ≤ b) ∪ l.fedLog.filter (fun f => a < f ∧ b < f) := by
    ext f
    simp only [Finset.mem_union, Finset.mem_filter]
    by_cases hfb : f ≤ b
    · simp [hfb]
    · simp only [hfb]
      have : b < f := by omega
      simp [this]
  refine ⟨(l.fedLog.filter (fun f => a < f ∧ b < f)).sort (· ≤ ·), ?_⟩
  unfold federatedUpTo federatedAfter
  dsimp only
  rw [hunion, Finset.sort_union_of_lt]
  intro f hf g hg
  have := (Finset.mem_filter.mp hf).2.2
  have := (Finset.mem_filter.mp hg).2.2
  omega

/-! ## A log that grows -/

/-- Records are only added, and federated ones at the end. -/
structure Grows (l l' : LogDB) : Prop where
  kept : l.fedLog ⊆ l'.fedLog
  added : ∀ f ∈ l'.fedLog, f ∈ l.fedLog ∨ ∀ g ∈ l.fedLog, g < f
  sql : ∀ i x, (l.lookup i).map LogRow.sql = some x → (l'.lookup i).map LogRow.sql = some x

theorem FedPrev.grows {l l' : LogDB} (hg : Grows l l') {a b : ℕ} (h : l.FedPrev a b) :
    l'.FedPrev a b where
  left := hg.kept h.left
  right := hg.kept h.right
  lt := h.lt
  next := by
    intro f hf hfb
    rcases hg.added f hf with hold | hnew
    · exact h.next f hold hfb
    · have := hnew b h.right
      omega

theorem Grows.federatedUpTo {l l' : LogDB} (hg : Grows l l') {a b : ℕ}
    (hb : a = b ∨ b ∈ l.fedLog) : l'.federatedUpTo a b = l.federatedUpTo a b := by
  unfold LogDB.federatedUpTo
  congr 1
  ext f
  rw [Finset.mem_filter, Finset.mem_filter]
  constructor
  · rintro ⟨hf, haf, hfb⟩
    refine ⟨?_, haf, hfb⟩
    rcases hg.added f hf with hold | hnew
    · exact hold
    · rcases hb with rfl | hb
      · omega
      · have := hnew b hb
        omega
  · rintro ⟨hf, haf, hfb⟩
    exact ⟨hg.kept hf, haf, hfb⟩

/-- The federated indexes are indexes of the log. -/
def Appending (l : LogDB) : Prop := ∀ f ∈ l.fedLog, f < l.nextIndex

/-- A write of the master makes its log grow. -/
theorem Appending.insertLogRecord {l l' : LogDB} (h : l.Appending) {dbOk : Bool} {term ts : ℕ}
    {sql : Sql} {fed o : Option ℕ} (hfed : fed = some 0 ∨ fed = none)
    (hins : l.insertLogRecord dbOk term sql ts fed = some (l', o)) :
    Grows l l' ∧ l'.Appending := by
  have hkeep : ∀ {l₁ : LogDB}, l₁.fedLog = l.fedLog → l.nextIndex ≤ l₁.nextIndex →
      (∀ i x, (l.lookup i).map LogRow.sql = some x → (l₁.lookup i).map LogRow.sql = some x) →
      Grows l l₁ ∧ l₁.Appending := by
    intro l₁ hlog hnext hsql
    refine ⟨⟨?_, ?_, hsql⟩, ?_⟩
    · rw [hlog]
    · rw [hlog]
      exact fun f hf => Or.inl hf
    · intro f hf
      rw [hlog] at hf
      have := h f hf
      omega
  rcases insertLogRecord_cases hins with ⟨-, rfl, -⟩ | ⟨-, hnext, -, -, -, hrow⟩
  · exact hkeep rfl le_rfl (fun _ _ hx => hx)
  · rcases hrow with ⟨hfree, hlog, row, hidx, -, -, -, -, htable⟩ | ⟨-, -, hlog, htable⟩
    · have hsql : ∀ i x, (l.lookup i).map LogRow.sql = some x →
          (l'.lookup i).map LogRow.sql = some x := by
        intro i x hx
        rw [lookup_insertRow htable, hidx]
        by_cases hi : i = l.nextIndex
        · rw [hi, hfree] at hx
          exact absurd hx (by simp)
        · rw [if_neg hi]
          exact hx
      rcases hfed with rfl | rfl
      · simp only [if_true] at hlog
        refine ⟨⟨?_, ?_, hsql⟩, ?_⟩
        · rw [hlog]
          exact Finset.subset_insert _ _
        · rw [hlog]
          intro f hf
          rcases Finset.mem_insert.mp hf with rfl | hf
          · exact Or.inr (fun g hg => h g hg)
          · exact Or.inl hf
        · intro f hf
          rw [hlog] at hf
          rcases Finset.mem_insert.mp hf with rfl | hf
          · omega
          · have := h f hf
            omega
      · exact hkeep hlog (by omega) hsql
    · refine hkeep hlog (by omega) ?_
      intro i x hx
      rw [lookup, htable, ← lookup]
      exact hx

theorem Marks.sql {l l' : LogDB} (h : Marks l l') (i : ℕ) :
    (l'.lookup i).map LogRow.sql = (l.lookup i).map LogRow.sql := by
  have hi := congrArg (Option.map (fun c : ℕ × ℕ × Sql × Option ℕ => c.2.2.1)) (h.lookup i)
  rw [Option.map_map, Option.map_map] at hi
  exact hi

theorem Marks.grows {l l' : LogDB} (h : Marks l l') : Grows l l' where
  kept := h.fedLog ▸ subset_rfl
  added := by
    rw [h.fedLog]
    exact fun f hf => Or.inl hf
  sql := fun i x hx => (h.sql i).trans hx

end LogDB

/-! ## The records of a slave -/

namespace LogDB

/-- The federated record at an index of the log. -/
def fedRecord (l : LogDB) (i : ℕ) : Option (ℕ × Sql) :=
  (l.lookup i).bind (fun r => r.fedIndex.map (fun f => (f, r.sql)))

theorem Marks.fedRecord {l l' : LogDB} (h : Marks l l') (i : ℕ) :
    l'.fedRecord i = l.fedRecord i := by
  have hi := congrArg (fun o : Option (ℕ × ℕ × Sql × Option ℕ) =>
    o.bind (fun c => c.2.2.2.map (fun f => (f, c.2.2.1)))) (h.lookup i)
  simp only [Option.bind_map] at hi
  exact hi

/-- All rows are below the next index, and so is the last one applied. -/
structure InRange (l : LogDB) : Prop where
  rows : ∀ r ∈ l.table, r.index < l.nextIndex
  applied : l.lastApplied < l.nextIndex

theorem InRange.lookup {l : LogDB} (h : l.InRange) {i : ℕ} (hi : (l.lookup i).isSome) :
    i < l.nextIndex := by
  obtain ⟨r, hr⟩ := Option.isSome_iff_exists.mp hi
  obtain ⟨hmem, rfl⟩ := lookup_some hr
  exact h.rows r hmem

/-- What an append does to the records of a log. -/
theorem fedRecord_insertLogRecord {l l' : LogDB} {dbOk : Bool} {term ts : ℕ} {sql : Sql}
    {fed o : Option ℕ} (hfed : fed ≠ some 0)
    (h : l.insertLogRecord dbOk term sql ts fed = some (l', o)) :
    (∀ i, i < l.nextIndex → l'.fedRecord i = l.fedRecord i) ∧ l.nextIndex ≤ l'.nextIndex ∧
      l'.lastApplied = l.lastApplied ∧ (l.InRange → l'.InRange) ∧
      ((o = none ∧ l'.fedLog = l.fedLog ∧ fed = none) ∨ (o = some l.nextIndex ∧
        l'.nextIndex = l.nextIndex + 1 ∧
        (fed = none ∧ l'.fedLog = l.fedLog ∨
          ∃ f, fed = some f ∧ l'.fedLog = Insert.insert f l.fedLog ∧
            l'.fedRecord l.nextIndex = some (f, sql)))) := by
  rcases insertLogRecord_cases h with ⟨rfl, rfl, hnone⟩ | ⟨rfl, hnext, -, -, happ, hrow⟩
  · exact ⟨fun _ _ => rfl, le_rfl, rfl, id, Or.inl ⟨rfl, rfl, hnone⟩⟩
  · rcases hrow with ⟨-, hlog, row, hidx, -, hsql, hrfed, -, htable⟩ | ⟨-, rfl, hlog, htable⟩
    · rw [if_neg hfed] at hlog hrfed
      refine ⟨?_, by omega, happ, ?_, Or.inr ⟨rfl, hnext, ?_⟩⟩
      · intro i hi
        rw [fedRecord, lookup_insertRow htable, if_neg (by omega), fedRecord]
      · intro hr
        refine ⟨?_, ?_⟩
        · intro r hmem
          rw [htable] at hmem
          rcases List.mem_append.mp hmem with hold | hnew
          · have := hr.rows r (List.mem_filter.mp hold).1
            omega
          · rw [List.mem_singleton.mp hnew]
            omega
        · have := hr.applied
          omega
      · cases fed with
        | none => exact Or.inl ⟨rfl, hlog⟩
        | some f =>
          refine Or.inr ⟨f, rfl, hlog, ?_⟩
          rw [fedRecord, lookup_insertRow htable, if_pos hidx.symm, Option.bind_some, hrfed, hsql]
          rfl
    · have hlook : ∀ i, l'.lookup i = l.lookup i := by
        intro i
        rw [lookup, htable, lookup]
      refine ⟨?_, by omega, happ, ?_, Or.inr ⟨rfl, hnext, Or.inl ⟨rfl, hlog⟩⟩⟩
      · intro i _
        rw [fedRecord, hlook, fedRecord]
      · intro hr
        refine ⟨?_, ?_⟩
        · intro r hmem
          rw [htable] at hmem
          have := hr.rows r hmem
          omega
        · have := hr.applied
          omega

/-- The largest index of a federated log that gets a larger one. -/
theorem lastFederated_insert {l l' : LogDB} {a b : ℕ} (h : l.lastFederated = some a)
    (hlog : l'.fedLog = Insert.insert b l.fedLog) (hab : a < b) : l'.lastFederated = some b := by
  have hmax := (lastFederated_eq_some.mp h).2
  rw [lastFederated_eq_some, hlog]
  refine ⟨Finset.mem_insert_self b _, ?_⟩
  intro f hf
  rcases Finset.mem_insert.mp hf with rfl | hf
  · exact le_rfl
  · have := hmax f hf
    omega

end LogDB

/-- The elements of an increasing list up to a bound are its first ones. -/
theorem filter_le_isPrefix {l : List ℕ} (h : l.Pairwise (· < ·)) (c : ℕ) :
    l.filter (fun i => i ≤ c) <+: l := by
  induction l with
  | nil => exact List.prefix_rfl
  | cons i l ih =>
    rw [List.pairwise_cons] at h
    by_cases hi : i ≤ c
    · rw [List.filter_cons_of_pos (by simpa using hi)]
      exact List.cons_prefix_cons.mpr ⟨rfl, ih h.2⟩
    · have hnil : (i :: l).filter (fun i => i ≤ c) = [] := by
        apply List.filter_eq_nil_iff.mpr
        intro j hj
        rcases List.mem_cons.mp hj with rfl | hj
        · simpa using hi
        · have := h.1 j hj
          simp only [decide_eq_true_eq]
          omega
      rw [hnil]
      exact List.nil_prefix

/-- An increasing list, split at two bounds. -/
theorem filter_le_append {l : List ℕ} (h : l.Pairwise (· < ·)) {c d : ℕ} (hcd : c ≤ d) :
    l.filter (fun i => i ≤ d) =
      l.filter (fun i => i ≤ c) ++ l.filter (fun i => c < i ∧ i ≤ d) := by
  induction l with
  | nil => rfl
  | cons i l ih =>
    rw [List.pairwise_cons] at h
    have ih := ih h.2
    by_cases hc : i ≤ c
    · have hd : i ≤ d := by omega
      simp [hc, hd, ih]
    · have hnil : l.filter (fun i => i ≤ c) = [] := by
        apply List.filter_eq_nil_iff.mpr
        intro j hj
        have := h.1 j hj
        simp only [decide_eq_true_eq]
        omega
      rw [hnil, List.nil_append] at ih
      have hc' : c < i := by omega
      simp [List.filter_cons, hc, hc', hnil, ih]

/-- Two increasing lists with the same elements. -/
theorem eq_of_increasing {l l' : List ℕ} (h : l.Pairwise (· < ·)) (h' : l'.Pairwise (· < ·))
    (hmem : ∀ i, i ∈ l ↔ i ∈ l') : l = l' := by
  apply List.Perm.eq_of_pairwise' (r := (· < ·)) h h'
  exact (List.perm_ext_iff_of_nodup (h.imp (fun hab => Nat.ne_of_lt hab))
    (h'.imp (fun hab => Nat.ne_of_lt hab))).mpr hmem

/-- The records that `apply_log_record` has inserted, in the order of the log. -/
def Slave.records (v : Slave) : List (ℕ × Sql) := v.accepted.filterMap v.logdb.fedRecord

namespace Handler

/-- The call that has passed the comparison and is not in the log yet. -/
def request : Handler → Option FedParams
  | .exec p | .insert p => some p
  | _ => none

/-- The record that is executed and not in the log yet. -/
def done : Handler → List (ℕ × Sql)
  | .insert p => [(p.index, p.sql)]
  | _ => []

/-- The places that a server can be in, in solo mode and as the leader of its zone. -/
def Fits (solo : Bool) : Handler → Prop
  | .insert _ | .setApplied _ => solo = true
  | .wait _ _ => solo = false
  | _ => True

end Handler

/-! ## The invariant -/

/-- A call names a record of the master and the index before it. -/
structure FedGenuine (m : LogDB) (p : FedParams) : Prop where
  sql : (m.lookup p.index).map LogRow.sql = some p.sql
  prev : ∃ a, p.prev = some a ∧ m.FedPrev a p.index

/-- What the thread of a zone has read. -/
def FedThread.Genuine (m : LogDB) : FedThread → Prop
  | .record lr => (m.lookup lr.index).map LogRow.sql = some lr.sql ∧ ∃ a, m.FedPrev a lr.index
  | _ => True

/-- The records of a slave whose last federated index was `a`: they go on from `a` to its present
last index `b`. -/
structure SlaveOrder (m : LogDB) (a : ℕ) (v : Slave) : Prop where
  increasing : v.accepted.Pairwise (· < ·)
  below : ∀ i ∈ v.accepted, i < v.logdb.nextIndex
  last : ∃ b, v.logdb.lastFederated = some b ∧ a ≤ b ∧ (a = b ∨ b ∈ m.fedLog) ∧
    v.records.map Prod.fst = m.federatedUpTo a b ∧
    ∀ p ∈ v.handler.request, FedGenuine m p ∧ p.prev = some b
  sql : ∀ x ∈ v.records, (m.lookup x.1).map LogRow.sql = some x.2
  solo : v.solo = true → v.executed = v.records ++ v.handler.done
  mode : v.handler.Fits v.solo
  raft : v.solo = false → v.logdb.InRange ∧
    v.executed = (v.accepted.filter (fun i => i ≤ v.logdb.lastApplied)).filterMap v.logdb.fedRecord

/-- A slave without a federated record accepts nothing. -/
structure SlaveIdle (v : Slave) : Prop where
  last : v.logdb.lastFederated = none
  handler : v.handler = .free
  accepted : v.accepted = []
  executed : v.executed = []

/-- The invariant of a slave whose last federated index was `f` at the start. -/
def SlaveInv (m : LogDB) (f : Option ℕ) (v : Slave) : Prop :=
  match f with
  | none => SlaveIdle v
  | some a => SlaveOrder m a v

section Slave

variable {m m' : LogDB} {a : ℕ} {v v' : Slave}

theorem FedGenuine.grows {p : FedParams} (h : FedGenuine m p) (hg : LogDB.Grows m m') :
    FedGenuine m' p where
  sql := hg.sql _ _ h.sql
  prev := by
    obtain ⟨b, hb, hprev⟩ := h.prev
    exact ⟨b, hb, hprev.grows hg⟩

theorem FedThread.Genuine.grows {t : FedThread} (h : t.Genuine m) (hg : LogDB.Grows m m') :
    t.Genuine m' := by
  cases t with
  | record lr =>
    obtain ⟨hsql, b, hprev⟩ := h
    exact ⟨hg.sql _ _ hsql, b, hprev.grows hg⟩
  | _ => trivial

theorem SlaveOrder.grows (h : SlaveOrder m a v) (hg : LogDB.Grows m m') : SlaveOrder m' a v where
  increasing := h.increasing
  below := h.below
  last := by
    obtain ⟨b, hb, hab, hmem, hrec, hreq⟩ := h.last
    refine ⟨b, hb, hab, hmem.imp_right (fun hin => hg.kept hin), ?_, ?_⟩
    · rw [hg.federatedUpTo hmem]
      exact hrec
    · intro p hp
      exact ⟨(hreq p hp).1.grows hg, (hreq p hp).2⟩
  sql := fun x hx => hg.sql _ _ (h.sql x hx)
  solo := h.solo
  mode := h.mode
  raft := h.raft

theorem SlaveInv.grows {f : Option ℕ} (h : SlaveInv m f v) (hg : LogDB.Grows m m') :
    SlaveInv m' f v := by
  cases f with
  | none => exact h
  | some a => exact SlaveOrder.grows h hg

/-- The records depend on the log only where they are. -/
theorem records_congr {l l' : LogDB} {is : List ℕ}
    (h : ∀ i ∈ is, l'.fedRecord i = l.fedRecord i) :
    is.filterMap l'.fedRecord = is.filterMap l.fedRecord :=
  List.filterMap_congr h

/-- The handler goes on, and the log may get records that are not federated. -/
theorem SlaveOrder.keep (h : SlaveOrder m a v) {l : LogDB} {k : Handler}
    (hrec : ∀ i ∈ v.accepted, l.fedRecord i = v.logdb.fedRecord i)
    (hlog : l.fedLog = v.logdb.fedLog) (hnext : v.logdb.nextIndex ≤ l.nextIndex)
    (hraft : v.solo = false → l.InRange ∧ l.lastApplied = v.logdb.lastApplied)
    (hmode : k.Fits v.solo)
    (hreq : ∀ p ∈ k.request, FedGenuine m p ∧ p.prev = v.logdb.lastFederated)
    (hdone : k.done = v.handler.done) :
    SlaveOrder m a { v with logdb := l, handler := k } where
  increasing := h.increasing
  below := fun i hi => lt_of_lt_of_le (h.below i hi) hnext
  last := by
    obtain ⟨b, hb, hab, hmem, hfst, -⟩ := h.last
    have hlast : l.lastFederated = v.logdb.lastFederated := by
      unfold LogDB.lastFederated
      rw [hlog]
    refine ⟨b, hlast.trans hb, hab, hmem, ?_, ?_⟩
    · rw [Slave.records, records_congr hrec]
      exact hfst
    · intro p hp
      rw [← hb]
      exact hreq p hp
  sql := by
    rw [Slave.records, records_congr hrec]
    exact h.sql
  solo := by
    intro hs
    show v.executed = _ ++ k.done
    rw [Slave.records, records_congr hrec, hdone]
    exact h.solo hs
  mode := hmode
  raft := by
    intro hs
    obtain ⟨-, hex⟩ := h.raft hs
    obtain ⟨hr, happ⟩ := hraft hs
    refine ⟨hr, ?_⟩
    show v.executed = (v.accepted.filter (fun i => i ≤ l.lastApplied)).filterMap l.fedRecord
    rw [happ, records_congr (fun i hi => hrec i (List.mem_filter.mp hi).1)]
    exact hex

/-- The handler is done, or has passed the comparison. -/
theorem SlaveOrder.handler (h : SlaveOrder m a v) {k : Handler}
    (hreq : ∀ p ∈ k.request, FedGenuine m p ∧ p.prev = v.logdb.lastFederated)
    (hdone : k.done = v.handler.done) (hmode : k.Fits v.solo) :
    SlaveOrder m a { v with handler := k } :=
  h.keep (fun _ _ => rfl) rfl le_rfl (fun hs => ⟨(h.raft hs).1, rfl⟩) hmode hreq hdone

/-- **The next record is accepted.** -/
theorem SlaveOrder.accept (h : SlaveOrder m a v) {p : FedParams} (hp : p ∈ v.handler.request)
    {dbOk : Bool} {term ts : ℕ} {l : LogDB} {o : Option ℕ}
    (hins : v.logdb.insertLogRecord dbOk term p.sql ts (some p.index) = some (l, o)) :
    o = some v.logdb.nextIndex ∧ (∀ i ∈ v.accepted, l.fedRecord i = v.logdb.fedRecord i) ∧
      (v.accepted ++ [v.logdb.nextIndex]).Pairwise (· < ·) ∧
      (∀ i ∈ v.accepted ++ [v.logdb.nextIndex], i < l.nextIndex) ∧
      l.lastFederated = some p.index ∧ a ≤ p.index ∧ p.index ∈ m.fedLog ∧
      (v.accepted ++ [v.logdb.nextIndex]).filterMap l.fedRecord =
        v.records ++ [(p.index, p.sql)] ∧
      (v.records ++ [(p.index, p.sql)]).map Prod.fst = m.federatedUpTo a p.index ∧
      (∀ x ∈ v.records ++ [(p.index, p.sql)], (m.lookup x.1).map LogRow.sql = some x.2) ∧
      l.lastApplied = v.logdb.lastApplied ∧ (v.logdb.InRange → l.InRange) := by
  obtain ⟨b, hb, hab, -, hfst, hreq⟩ := h.last
  obtain ⟨hgen, hprev⟩ := hreq p hp
  obtain ⟨b', hb', hfp⟩ := hgen.prev
  rw [hprev, Option.some.injEq] at hb'
  subst hb'
  have hlt := hfp.lt
  have hne : some p.index ≠ some 0 := by
    rw [Ne, Option.some.injEq]
    omega
  obtain ⟨hold, -, happ, hrange, hcases⟩ := LogDB.fedRecord_insertLogRecord hne hins
  have hold' : ∀ i ∈ v.accepted, l.fedRecord i = v.logdb.fedRecord i :=
    fun i hi => hold i (h.below i hi)
  obtain ⟨-, -, hnone⟩ | ⟨rfl, hnext, hfed⟩ := hcases
  · exact absurd hnone (by simp)
  · obtain ⟨hnone, -⟩ | ⟨f, hf, hlog, hrec⟩ := hfed
    · exact absurd hnone (by simp)
    · rw [Option.some.injEq] at hf
      subst hf
      refine ⟨rfl, hold', ?_, ?_, LogDB.lastFederated_insert hb hlog hlt, by omega, hfp.right, ?_,
        ?_, ?_, happ, hrange⟩
      · rw [List.pairwise_append]
        refine ⟨h.increasing, List.pairwise_singleton _ _, ?_⟩
        intro i hi j hj
        rw [List.mem_singleton.mp hj]
        exact h.below i hi
      · intro i hi
        rcases List.mem_append.mp hi with hi | hi
        · have := h.below i hi
          omega
        · rw [List.mem_singleton.mp hi]
          omega
      · rw [List.filterMap_append, records_congr hold']
        simp [hrec, Slave.records]
      · rw [List.map_append, hfst, hfp.federatedUpTo hab]
        rfl
      · intro x hx
        rcases List.mem_append.mp hx with hx | hx
        · exact h.sql x hx
        · rw [List.mem_singleton.mp hx]
          exact hgen.sql

/-- The records that are applied are the accepted ones between the two last indexes applied. -/
theorem filterMap_applied {l l' : LogDB} {lrs : List LogDBRecord} {is : List ℕ}
    (hinc : is.Pairwise (· < ·)) (hle : l.lastApplied ≤ l'.lastApplied)
    (hidx : lrs.map LogDBRecord.index =
      List.range' (l.lastApplied + 1) (l'.lastApplied - l.lastApplied))
    (hrec : ∀ lr ∈ lrs, (l.lookup lr.index).map LogDB.rowContent =
      some (lr.index, lr.term, lr.sql, lr.fedIndex)) :
    (lrs.filter (fun lr => lr.index ∈ is)).filterMap
        (fun lr => lr.fedIndex.map (fun f => (f, lr.sql))) =
      (is.filter (fun i => l.lastApplied < i ∧ i ≤ l'.lastApplied)).filterMap l.fedRecord := by
  have hfed : ∀ lr ∈ lrs, lr.fedIndex.map (fun f => (f, lr.sql)) = l.fedRecord lr.index := by
    intro lr hlr
    have hi := congrArg (fun o : Option (ℕ × ℕ × Sql × Option ℕ) =>
      o.bind (fun c => c.2.2.2.map (fun f => (f, c.2.2.1)))) (hrec lr hlr)
    simp only [Option.bind_map, Option.bind_some] at hi
    exact hi.symm
  have hmap : (lrs.filter (fun lr => lr.index ∈ is)).map LogDBRecord.index =
      is.filter (fun i => l.lastApplied < i ∧ i ≤ l'.lastApplied) := by
    have hfilter : (lrs.filter (fun lr => lr.index ∈ is)).map LogDBRecord.index =
        (lrs.map LogDBRecord.index).filter (fun i => i ∈ is) := by
      rw [List.filter_map]
      rfl
    rw [hfilter, hidx]
    apply eq_of_increasing
    · exact List.Pairwise.filter _ List.pairwise_lt_range'
    · exact List.Pairwise.filter _ hinc
    · intro i
      simp only [List.mem_filter, List.mem_range'_1, decide_eq_true_eq]
      constructor
      · rintro ⟨⟨h1, h2⟩, h3⟩
        exact ⟨h3, by omega, by omega⟩
      · rintro ⟨h1, h2, h3⟩
        exact ⟨⟨by omega, by omega⟩, h1⟩
  rw [← hmap, List.filterMap_map]
  apply List.filterMap_congr
  intro lr hlr
  exact hfed lr (List.mem_filter.mp hlr).1

/-- **Applying records of the log executes the accepted ones in their order.** -/
theorem SlaveOrder.apply (h : SlaveOrder m a v) (hs : v.solo = false) (env : SlaveEnv) (c : ℕ) :
    SlaveOrder m a (v.apply env c).1 := by
  obtain ⟨hrange, hex⟩ := h.raft hs
  obtain ⟨hmarks, hle, hidx, hrec⟩ := LogDB.reportedLoop_marks {} env.dbOk env.now env.exec
    (c - v.logdb.lastApplied) v.logdb
  unfold Slave.apply
  rw [LogDB.applyLogRecords_eq (fun _ _ _ => Or.inl rfl)]
  generalize LogDB.reportedLoop {} env.dbOk env.now env.exec (c - v.logdb.lastApplied) v.logdb = res
    at hmarks hle hidx hrec ⊢
  obtain ⟨l, ok, lrs⟩ := res
  dsimp only at hmarks hle hidx hrec ⊢
  have hnew := filterMap_applied h.increasing hle hidx (fun lr hlr => hrec lr hlr rfl)
  have hfed : ∀ i ∈ v.accepted, l.fedRecord i = v.logdb.fedRecord i :=
    fun i _ => hmarks.fedRecord i
  have hbelow : l.lastApplied < l.nextIndex := by
    rw [hmarks.nextIndex]
    rcases Nat.lt_or_eq_of_le hle with hlt | heq
    · -- the last record applied is a row of the log
      have hmem : l.lastApplied ∈ lrs.map LogDBRecord.index := by
        rw [hidx, List.mem_range'_1]
        omega
      obtain ⟨lr, hlr, hlri⟩ := List.mem_map.mp hmem
      rw [← hlri]
      apply hrange.lookup
      have hsome := congrArg Option.isSome (hrec lr hlr rfl)
      rw [Option.isSome_map] at hsome
      exact hsome
    · rw [← heq]
      exact hrange.applied
  obtain ⟨b, hb, hab, hmem, hfst, hreq⟩ := h.last
  refine ⟨h.increasing, ?_, ⟨b, ?_, hab, hmem, ?_, hreq⟩, ?_, ?_, h.mode, ?_⟩
  · intro i hi
    exact lt_of_lt_of_le (h.below i hi) (le_of_eq hmarks.nextIndex.symm)
  · rw [← hb]
    unfold LogDB.lastFederated
    rw [hmarks.fedLog]
  · rw [Slave.records, records_congr hfed]
    exact hfst
  · rw [Slave.records, records_congr hfed]
    exact h.sql
  · intro hsolo
    exact absurd (hs.symm.trans hsolo) (by simp)
  · intro _
    refine ⟨⟨?_, hbelow⟩, ?_⟩
    · intro r hr
      have hlook := LogDB.lookup_isSome_of_mem hr
      rw [hmarks.lookup_isSome] at hlook
      exact lt_of_lt_of_le (hrange.lookup hlook) (le_of_eq hmarks.nextIndex.symm)
    · have hfed' : ∀ {P : ℕ → Bool}, ∀ i ∈ v.accepted.filter P,
          l.fedRecord i = v.logdb.fedRecord i :=
        fun i hi => hfed i (List.mem_filter.mp hi).1
      rw [filter_le_append h.increasing hle, List.filterMap_append, records_congr hfed',
        records_congr hfed', ← hex, ← hnew]

/-- The end of a call whose record is not half done. -/
theorem SlaveOrder.finish (h : SlaveOrder m a v) (p : FedParams) (rc : Option ℕ)
    (hdone : v.handler.done = []) : SlaveOrder m a (v.finish p rc).1 :=
  h.handler (by simp [Handler.request]) hdone.symm trivial

/-- A call arrives. -/
theorem SlaveOrder.receive (h : SlaveOrder m a v) {p : FedParams} (hp : FedGenuine m p)
    {refused : Bool} {sent : List FedMsg} (hstep : v.receive p refused = some (v', sent)) :
    SlaveOrder m a v' := by
  unfold Slave.receive at hstep
  split at hstep
  · rw [Option.some.injEq, Prod.mk.injEq] at hstep
    exact hstep.1 ▸ h
  · split at hstep
    · rename_i hfree
      have hdone : v.handler.done = [] := by
        rw [hfree]
        rfl
      split at hstep
      · have hfin := h.finish p v.logdb.lastFederated hdone
        rw [Option.some.inj hstep] at hfin
        exact hfin
      · rename_i hprev
        rw [Option.some.injEq, Prod.mk.injEq] at hstep
        rw [← hstep.1]
        refine h.handler ?_ hdone.symm trivial
        intro q hq
        rw [← Option.some.inj hq]
        exact ⟨hp, not_not.mp hprev⟩
    · exact absurd hstep (by simp)

/-- In solo mode the command is executed before the record is in the log. -/
theorem SlaveOrder.soloExec (h : SlaveOrder m a v) {p : FedParams} (hk : v.handler = .exec p)
    (hs : v.solo = true) : SlaveOrder m a
      { v with handler := .insert p, executed := v.executed ++ [(p.index, p.sql)] } := by
  have hreq : p ∈ v.handler.request := by
    rw [hk]
    rfl
  obtain ⟨b, hb, hab, hmem, hfst, hgen⟩ := h.last
  refine ⟨h.increasing, h.below, ⟨b, hb, hab, hmem, hfst, ?_⟩, h.sql, ?_, hs, ?_⟩
  · intro q hq
    rw [← Option.some.inj hq]
    exact hgen p hreq
  · intro _
    show v.executed ++ [(p.index, p.sql)] = v.records ++ [(p.index, p.sql)]
    rw [h.solo hs, hk]
    simp [Handler.done]
  · intro hs'
    exact absurd (hs.symm.trans hs') (by simp)

/-- In solo mode the record comes into the log. -/
theorem SlaveOrder.soloInsert (h : SlaveOrder m a v) {p : FedParams} (hk : v.handler = .insert p)
    {dbOk : Bool} {ts : ℕ} {l : LogDB} {o : Option ℕ}
    (hins : v.logdb.insertLogRecord dbOk 0 p.sql ts (some p.index) = some (l, o)) :
    SlaveOrder m a
      { v with logdb := l, accepted := v.accepted ++ o.toList, handler := .setApplied p } := by
  have hs : v.solo = true := by
    have hmode := h.mode
    rw [hk] at hmode
    exact hmode
  obtain ⟨rfl, -, hinc, hbelow, hlast, hap, hmem, hrec, hfst, hsql, -, -⟩ :=
    h.accept (by rw [hk]; rfl) hins
  refine ⟨hinc, hbelow, ⟨p.index, hlast, hap, Or.inr hmem, ?_, by simp [Handler.request]⟩,
    ?_, ?_, hs, ?_⟩
  · exact (congrArg _ hrec).trans hfst
  · intro x hx
    exact hsql x (hrec ▸ hx)
  · intro _
    refine (h.solo hs).trans ?_
    rw [hk]
    exact hrec.symm.trans (List.append_nil _).symm
  · intro hs'
    exact absurd (hs.symm.trans hs') (by simp)

/-- On a leader the record comes into the log and is not applied yet. -/
theorem SlaveOrder.raftInsert (h : SlaveOrder m a v) {p : FedParams} (hk : v.handler = .exec p)
    (hs : v.solo = false) {dbOk : Bool} {term i : ℕ} {l : LogDB}
    (hins : v.logdb.insertLogRecord dbOk term p.sql 0 (some p.index) = some (l, some i)) :
    SlaveOrder m a
      { v with logdb := l, accepted := v.accepted ++ [i], handler := .wait p i } := by
  obtain ⟨hi, hold, hinc, hbelow, hlast, hap, hmem, hrec, hfst, hsql, happ, hrange⟩ :=
    h.accept (by rw [hk]; rfl) hins
  rw [Option.some.injEq] at hi
  subst hi
  obtain ⟨hr, hex⟩ := h.raft hs
  refine ⟨hinc, hbelow, ⟨p.index, hlast, hap, Or.inr hmem, ?_, by simp [Handler.request]⟩,
    ?_, ?_, hs, ?_⟩
  · exact (congrArg _ hrec).trans hfst
  · intro x hx
    exact hsql x (hrec ▸ hx)
  · intro hs'
    exact absurd (hs.symm.trans hs') (by simp)
  · intro _
    refine ⟨hrange hr, ?_⟩
    show v.executed = ((v.accepted ++ [v.logdb.nextIndex]).filter
      (fun i => i ≤ l.lastApplied)).filterMap l.fedRecord
    have hnot : ¬ v.logdb.nextIndex ≤ v.logdb.lastApplied := not_le.mpr hr.applied
    rw [happ, List.filter_append, List.filter_cons_of_neg (by simpa using hnot),
      List.filter_nil, List.append_nil,
      records_congr (fun i hi => hold i (List.mem_filter.mp hi).1)]
    exact hex

/-- **A step of the call that holds the mutex.** -/
theorem SlaveOrder.handlerStep (h : SlaveOrder m a v) {env : SlaveEnv} {sent : List FedMsg}
    (hstep : v.handlerStep env = some (v', sent)) : SlaveOrder m a v' := by
  unfold Slave.handlerStep at hstep
  cases hk : v.handler with
  | free =>
    rw [hk] at hstep
    exact absurd hstep (by simp)
  | exec p =>
    have hfin : SlaveOrder m a (v.finish p none).1 := h.finish p none (by rw [hk]; rfl)
    rw [hk] at hstep
    simp only at hstep
    split at hstep
    · rename_i hs
      split at hstep
      · rw [Option.some.injEq, Prod.mk.injEq] at hstep
        exact hstep.1 ▸ h.soloExec hk hs
      · rw [Option.some.inj hstep] at hfin
        exact hfin
    · rename_i hs
      split at hstep
      · split at hstep
        · exact absurd hstep (by simp)
        · rw [Option.some.inj hstep] at hfin
          exact hfin
        · rename_i l i hins
          rw [Option.some.injEq, Prod.mk.injEq] at hstep
          exact hstep.1 ▸ h.raftInsert hk (by simpa using hs) hins
      · rw [Option.some.inj hstep] at hfin
        exact hfin
  | insert p =>
    rw [hk] at hstep
    simp only at hstep
    split at hstep
    · exact absurd hstep (by simp)
    · rename_i l o hins
      rw [Option.some.injEq, Prod.mk.injEq] at hstep
      exact hstep.1 ▸ h.soloInsert hk hins
  | setApplied p =>
    rw [hk, Option.some.injEq] at hstep
    have hv := congrArg Prod.fst hstep
    rw [← show _ = v' from hv]
    refine h.keep (fun _ _ => rfl) rfl le_rfl ?_ trivial (by simp [Handler.request])
      (by rw [hk]; rfl)
    intro hs
    have hmode := h.mode
    rw [hk] at hmode
    exact absurd (hs.symm.trans hmode) (by simp)
  | wait p i =>
    have hdone : v.handler.done = [] := by
      rw [hk]
      rfl
    have hs : v.solo = false := by
      have hmode := h.mode
      rw [hk] at hmode
      exact hmode
    rw [hk] at hstep
    simp only at hstep
    split at hstep
    · have hfin := (h.apply hs env i).finish p
        (if (v.apply env i).2 then some 0 else none) hdone
      rw [Option.some.inj hstep] at hfin
      exact hfin
    · have hfin := h.finish p none hdone
      rw [Option.some.inj hstep] at hfin
      exact hfin

/-- Another thread of the slave writes to its log. -/
theorem SlaveOrder.localWrite (h : SlaveOrder m a v) {env : SlaveEnv} {sql : Sql}
    (hstep : v.localWrite env sql = some v') : SlaveOrder m a v' := by
  unfold Slave.localWrite at hstep
  split at hstep
  · exact absurd hstep (by simp)
  · rename_i l o hins
    rw [← Option.some.inj hstep]
    obtain ⟨hold, hnext, happ, hrange, hcases⟩ :=
      LogDB.fedRecord_insertLogRecord (by simp) hins
    have hlog : l.fedLog = v.logdb.fedLog := by
      obtain ⟨-, hlog, -⟩ | ⟨-, -, hfed⟩ := hcases
      · exact hlog
      · obtain ⟨-, hlog⟩ | ⟨f, hf, -⟩ := hfed
        · exact hlog
        · exact absurd hf (by simp)
    refine h.keep (k := v.handler) (l := if v.solo then { l with lastApplied := l.lastIndex } else l)
      ?_ ?_ ?_ ?_ h.mode ?_ rfl
    · intro i hi
      cases hs : v.solo with
      | true => exact hold i (h.below i hi)
      | false => exact hold i (h.below i hi)
    · cases hs : v.solo with
      | true => exact hlog
      | false => exact hlog
    · cases hs : v.solo with
      | true => exact hnext
      | false => exact hnext
    · intro hs
      rw [hs]
      exact ⟨hrange (h.raft hs).1, happ⟩
    · intro p hp
      obtain ⟨b, hb, -, -, -, hgen⟩ := h.last
      rw [hb]
      exact hgen p hp

/-- What a slave has executed are the first of its records, or all of them and the one that is
on its way into the log. -/
theorem SlaveOrder.executed_isPrefix (h : SlaveOrder m a v) :
    v.executed.map Prod.fst <+: m.federatedAfter (some a) ∧
      ∀ x ∈ v.executed, (m.lookup x.1).map LogRow.sql = some x.2 := by
  obtain ⟨b, -, hab, -, hfst, hreq⟩ := h.last
  cases hs : v.solo with
  | false =>
    obtain ⟨-, hex⟩ := h.raft hs
    have hpre : v.executed <+: v.records := by
      rw [hex]
      exact (filter_le_isPrefix h.increasing v.logdb.lastApplied).filterMap _
    refine ⟨(hpre.map Prod.fst).trans ?_, fun x hx => h.sql x (hpre.subset hx)⟩
    rw [hfst]
    exact m.federatedUpTo_isPrefix a b
  | true =>
    have hex := h.solo hs
    cases hk : v.handler with
    | insert p =>
      obtain ⟨hgen, hprev⟩ := hreq p (by rw [hk]; rfl)
      obtain ⟨b', hb', hfp⟩ := hgen.prev
      rw [hprev, Option.some.injEq] at hb'
      subst hb'
      rw [hk] at hex
      rw [hex]
      refine ⟨?_, ?_⟩
      · rw [List.map_append, hfst]
        show m.federatedUpTo a b ++ [p.index] <+: _
        rw [← hfp.federatedUpTo hab]
        exact m.federatedUpTo_isPrefix a p.index
      · intro x hx
        rcases List.mem_append.mp hx with hx | hx
        · exact h.sql x hx
        · rw [List.mem_singleton.mp hx]
          exact hgen.sql
    | _ =>
      have hall : v.executed = v.records := by
        rw [hex, hk]
        exact List.append_nil _
      rw [hall, hfst]
      exact ⟨m.federatedUpTo_isPrefix a b, h.sql⟩

/-! ## A slave without federated records -/

theorem SlaveIdle.receive (h : SlaveIdle v) {p : FedParams} (hp : FedGenuine m p) {refused : Bool}
    {sent : List FedMsg} (hstep : v.receive p refused = some (v', sent)) : SlaveIdle v' := by
  obtain ⟨b, hb, -⟩ := hp.prev
  unfold Slave.receive at hstep
  rw [h.last, hb] at hstep
  simp only [h.handler, if_true, ne_eq, reduceCtorEq, not_false_eq_true] at hstep
  split at hstep
  · rw [Option.some.injEq, Prod.mk.injEq] at hstep
    exact hstep.1 ▸ h
  · have hv := congrArg Prod.fst (Option.some.inj hstep)
    rw [← show _ = v' from hv]
    exact ⟨h.last, rfl, h.accepted, h.executed⟩

theorem SlaveIdle.localWrite (h : SlaveIdle v) {env : SlaveEnv} {sql : Sql}
    (hstep : v.localWrite env sql = some v') : SlaveIdle v' := by
  unfold Slave.localWrite at hstep
  split at hstep
  · exact absurd hstep (by simp)
  · rename_i l o hins
    rw [← Option.some.inj hstep]
    have hlog : l.lastFederated = none := by
      obtain ⟨-, -, -, -, hcases⟩ := LogDB.fedRecord_insertLogRecord (by simp) hins
      rw [← h.last]
      unfold LogDB.lastFederated
      obtain ⟨-, hlog, -⟩ | ⟨-, -, ⟨-, hlog⟩ | ⟨f, hf, -⟩⟩ := hcases
      · rw [hlog]
      · rw [hlog]
      · exact absurd hf (by simp)
    refine ⟨?_, h.handler, h.accepted, h.executed⟩
    cases hs : v.solo with
    | true => exact hlog
    | false => exact hlog

theorem SlaveIdle.apply (h : SlaveIdle v) (env : SlaveEnv) (c : ℕ) :
    SlaveIdle (v.apply env c).1 := by
  have hmarks := v.logdb.applyLogRecords_marks env.dbOk env.now env.exec c {}
  refine ⟨?_, h.handler, h.accepted, ?_⟩
  · rw [← h.last]
    show LogDB.lastFederated (v.logdb.applyLogRecords env.dbOk env.now env.exec c).1 = _
    unfold LogDB.lastFederated
    rw [hmarks.fedLog]
  · simp [Slave.apply, h.accepted, h.executed]

end Slave

/-! ## The threads of the master -/

/-- What `get_next_record` reads. -/
theorem genuine_getNextRecord {m : LogDB} {zs zs' : ZoneServers} {lr : LogDBRecord}
    (h : zs.getNextRecord m = (zs', .record lr)) : FedThread.Genuine m (.record lr) := by
  unfold ZoneServers.getNextRecord at h
  dsimp only at h
  split at h
  · exact absurd h (by simp)
  · rename_i i _
    split at h
    · exact absurd h (by simp)
    · rename_i b hb
      have hprev := LogDB.previousFederated_eq_some.mp hb
      split at h
      · exact absurd h (by simp)
      · rename_i lr' hlr
        rw [Prod.mk.injEq, NextRecord.record.injEq] at h
        obtain ⟨-, rfl⟩ := h
        have hsel : m.selectRecord i b = some lr' := by simpa [LogDB.getLogRecord] using hlr
        have hidx := LogDB.selectRecord_index hsel
        obtain ⟨f, hlook, -⟩ := LogDB.lookup_of_selectRecord hsel
        obtain ⟨c, hc, hcontent⟩ := Option.map_eq_some_iff.mp hlook
        refine ⟨?_, b, hidx ▸ hprev⟩
        rw [hidx, hc, Option.map_some]
        exact congrArg (fun c => some c.2.2.1) hcontent

/-- The thread of a zone reads and sends records of the master. -/
theorem genuine_threadStep {m : LogDB} {fm fm' : FedReplicaManager} {net sent : List FedMsg}
    {z : ZoneId} {reply : Option (Bool × Option ℕ)} {t t' : FedThread} (ht : t.Genuine m)
    (h : Federation.threadStep fm m net z reply t = some (fm', t', sent)) :
    t'.Genuine m ∧ ∀ p, FedMsg.replicate p ∈ sent → FedGenuine m p := by
  cases t with
  | idle =>
    unfold Federation.threadStep FedReplicaManager.getNextRecord at h
    cases hz : fm.lookup z with
    | none =>
      simp only [hz, Option.some.injEq, Prod.mk.injEq] at h
      obtain ⟨-, rfl, rfl⟩ := h
      exact ⟨trivial, by simp⟩
    | some zs =>
      simp only [hz] at h
      split at h
      · rename_i m' lr heq
        rw [Prod.mk.injEq] at heq
        simp only [Option.some.injEq, Prod.mk.injEq] at h
        obtain ⟨-, rfl, rfl⟩ := h
        refine ⟨@genuine_getNextRecord m zs (zs.getNextRecord m).1 lr ?_, by simp⟩
        rw [← heq.2]
      · simp only [Option.some.injEq, Prod.mk.injEq] at h
        obtain ⟨-, rfl, rfl⟩ := h
        exact ⟨trivial, by simp⟩
  | record lr =>
    obtain ⟨hsql, b, hb⟩ := ht
    simp only [Federation.threadStep, Option.some.injEq, Prod.mk.injEq] at h
    obtain ⟨-, rfl, rfl⟩ := h
    refine ⟨trivial, ?_⟩
    intro p hp
    rw [List.mem_singleton, FedMsg.replicate.injEq] at hp
    subst hp
    exact ⟨hsql, b, LogDB.previousFederated_eq_some.mpr hb, hb⟩
  | wait q =>
    cases reply with
    | none =>
      simp only [Federation.threadStep, Option.some.injEq, Prod.mk.injEq] at h
      obtain ⟨-, rfl, rfl⟩ := h
      exact ⟨trivial, by simp⟩
    | some r =>
      obtain ⟨success, last⟩ := r
      simp only [Federation.threadStep] at h
      split at h
      · simp only [Option.some.injEq, Prod.mk.injEq] at h
        obtain ⟨-, rfl, rfl⟩ := h
        refine ⟨?_, by simp⟩
        split <;> trivial
      · exact absurd h (by simp)
  | success =>
    simp only [Federation.threadStep, Option.some.injEq, Prod.mk.injEq] at h
    obtain ⟨-, rfl, rfl⟩ := h
    exact ⟨trivial, by simp⟩
  | failure last =>
    simp only [Federation.threadStep, Option.some.injEq, Prod.mk.injEq] at h
    obtain ⟨-, rfl, rfl⟩ := h
    exact ⟨trivial, by simp⟩

/-! ## Runs -/

/-- A master server whose log only grows, and the replication of its federated records. -/
structure Replication where
  master : LogDB
  fed : Federation

/-- The steps: a write of the master, records that it applies, and the replication. -/
inductive ReplicationEvent where
  | write (dbOk : Bool) (term : ℕ) (sql : Sql) (timestamp : ℕ) (federated : Bool)
  | apply (dbOk : Bool) (now : ℕ) (exec : ℕ → SqlError) (commit : ℕ)
  | fed (e : FedEvent)

/-- One step.  A federated write asks for a new federated index with `0`; a write with a timestamp
is one of a server in solo mode. -/
def Replication.step (σ : Replication) : ReplicationEvent → Option Replication
  | .write dbOk term sql timestamp federated =>
    match σ.master.insertLogRecord dbOk term sql timestamp (if federated then some 0 else none) with
    | none => none
    | some (db, _) =>
      some { σ with
        master := if timestamp = 0 then db else { db with lastApplied := db.lastIndex } }
  | .apply dbOk now exec commit =>
    some { σ with master := (σ.master.applyLogRecords dbOk now exec commit).1 }
  | .fed e => (σ.fed.step (fun _ => σ.master) e).map (fun φ => { σ with fed := φ })

/-- The invariant of the replication; `f z` is the last federated index of the slave `z` at the
start. -/
structure ReplicationInv (f : ZoneId → Option ℕ) (σ : Replication) : Prop where
  master : σ.master.Appending
  thread : ∀ s z, (σ.fed.thread s z).Genuine σ.master
  net : ∀ p, FedMsg.replicate p ∈ σ.fed.net → FedGenuine σ.master p
  slave : ∀ z, SlaveInv σ.master (f z) (σ.fed.slave z)

section Run

variable {f : ZoneId → Option ℕ} {σ σ' : Replication}

/-- A step of the master. -/
theorem ReplicationInv.grows (h : ReplicationInv f σ) {l : LogDB} (hg : LogDB.Grows σ.master l)
    (ha : l.Appending) : ReplicationInv f { σ with master := l } where
  master := ha
  thread := fun s z => (h.thread s z).grows hg
  net := fun p hp => (h.net p hp).grows hg
  slave := fun z => (h.slave z).grows hg

/-- A step of a slave. -/
theorem ReplicationInv.putSlave (h : ReplicationInv f σ) {z : ZoneId} {v : Slave}
    {sent : List FedMsg} (hv : SlaveInv σ.master (f z) v)
    (hsent : ∀ p, FedMsg.replicate p ∉ sent) :
    ReplicationInv f { σ with fed := σ.fed.putSlave z v sent } where
  master := h.master
  thread := h.thread
  net := by
    intro p hp
    rcases List.mem_append.mp hp with hp | hp
    · exact absurd hp (hsent p)
    · exact h.net p hp
  slave := by
    intro z'
    by_cases hz : z' = z
    · subst hz
      simpa [Federation.putSlave] using hv
    · simpa [Federation.putSlave, hz] using h.slave z'

/-- A slave sends replies only. -/
theorem fedReply_ne (p q : FedParams) (rc : Option ℕ) : FedMsg.replicate p ≠ fedReply q rc := by
  unfold fedReply
  split <;> simp

theorem receive_sent {v v' : Slave} {p q : FedParams} {refused : Bool} {sent : List FedMsg}
    (h : v.receive p refused = some (v', sent)) : FedMsg.replicate q ∉ sent := by
  unfold Slave.receive Slave.finish at h
  have hne := fedReply_ne q
  split at h
  · simp only [Option.some.injEq, Prod.mk.injEq] at h
    rw [← h.2]
    simp
  · split at h
    · split at h
      · simp only [Option.some.injEq, Prod.mk.injEq] at h
        rw [← h.2, List.mem_singleton]
        exact hne p _
      · simp only [Option.some.injEq, Prod.mk.injEq] at h
        rw [← h.2]
        simp
    · exact absurd h (by simp)

theorem handlerStep_sent {v v' : Slave} {env : SlaveEnv} {q : FedParams} {sent : List FedMsg}
    (h : v.handlerStep env = some (v', sent)) : FedMsg.replicate q ∉ sent := by
  have hnil : ∀ {sent : List FedMsg}, [] = sent → FedMsg.replicate q ∉ sent := by
    rintro _ rfl
    simp
  have hone : ∀ {p : FedParams} {rc : Option ℕ} {sent : List FedMsg}, [fedReply p rc] = sent →
      FedMsg.replicate q ∉ sent := by
    rintro p rc _ rfl
    rw [List.mem_singleton]
    exact fedReply_ne q p rc
  unfold Slave.handlerStep Slave.finish at h
  cases hk : v.handler with
  | free =>
    rw [hk] at h
    exact absurd h (by simp)
  | exec p =>
    simp only [hk] at h
    split at h
    · split at h <;> simp only [Option.some.injEq, Prod.mk.injEq] at h
      · exact hnil h.2
      · exact hone h.2
    · split at h
      · split at h
        · exact absurd h (by simp)
        · simp only [Option.some.injEq, Prod.mk.injEq] at h
          exact hone h.2
        · simp only [Option.some.injEq, Prod.mk.injEq] at h
          exact hnil h.2
      · simp only [Option.some.injEq, Prod.mk.injEq] at h
        exact hone h.2
  | insert p =>
    simp only [hk] at h
    split at h
    · exact absurd h (by simp)
    · simp only [Option.some.injEq, Prod.mk.injEq] at h
      exact hnil h.2
  | setApplied p =>
    simp only [hk, Option.some.injEq, Prod.mk.injEq] at h
    exact hone h.2
  | wait p i =>
    simp only [hk] at h
    split at h <;> simp only [Option.some.injEq, Prod.mk.injEq] at h
    · exact hone h.2
    · exact hone h.2

/-- **Every step keeps the invariant.** -/
theorem ReplicationInv.step (h : ReplicationInv f σ) {e : ReplicationEvent}
    (hstep : σ.step e = some σ') : ReplicationInv f σ' := by
  cases e with
  | write dbOk term sql ts federated =>
    simp only [Replication.step] at hstep
    split at hstep
    · exact absurd hstep (by simp)
    · rename_i l o hins
      rw [← Option.some.inj hstep]
      obtain ⟨hg, ha⟩ := h.master.insertLogRecord (by cases federated <;> simp) hins
      split
      · exact h.grows hg ha
      · exact h.grows ⟨hg.kept, hg.added, hg.sql⟩ ha
  | apply dbOk now exec commit =>
    simp only [Replication.step, Option.some.injEq] at hstep
    rw [← hstep]
    have hmarks := σ.master.applyLogRecords_marks dbOk now exec commit {}
    refine h.grows hmarks.grows ?_
    intro g hg
    have hg' : g ∈ σ.master.fedLog := hmarks.fedLog ▸ hg
    exact lt_of_lt_of_le (h.master g hg') (le_of_eq hmarks.nextIndex.symm)
  | fed e =>
    simp only [Replication.step, Option.map_eq_some_iff] at hstep
    obtain ⟨φ, hφ, rfl⟩ := hstep
    cases e with
    | run s z reply =>
      simp only [Federation.step] at hφ
      split at hφ
      · exact absurd hφ (by simp)
      · rename_i fm t sent ht
        rw [← Option.some.inj hφ]
        obtain ⟨hgen, hsent⟩ := genuine_threadStep (h.thread s z) ht
        refine ⟨h.master, ?_, ?_, h.slave⟩
        · intro s' z'
          show (Function.update σ.fed.thread s (Function.update (σ.fed.thread s) z t) s' z').Genuine
            σ.master
          by_cases hs : s' = s
          · subst hs
            rw [Function.update_self]
            by_cases hz : z' = z
            · subst hz
              rw [Function.update_self]
              exact hgen
            · rw [Function.update_of_ne hz]
              exact h.thread s' z'
          · rw [Function.update_of_ne hs]
            exact h.thread s' z'
        · intro p hp
          rcases List.mem_append.mp hp with hp | hp
          · exact hsent p hp
          · exact h.net p hp
    | addZone s z =>
      simp only [Federation.step, Option.some.injEq] at hφ
      rw [← hφ]
      exact ⟨h.master, h.thread, h.net, h.slave⟩
    | deleteZone s z =>
      simp only [Federation.step, Option.some.injEq] at hφ
      rw [← hφ]
      exact ⟨h.master, h.thread, h.net, h.slave⟩
    | updateZones s zones =>
      simp only [Federation.step, Option.some.injEq] at hφ
      rw [← hφ]
      exact ⟨h.master, h.thread, h.net, h.slave⟩
    | receive p refused =>
      simp only [Federation.step] at hφ
      split at hφ
      · rename_i hp
        rw [Option.map_eq_some_iff] at hφ
        obtain ⟨⟨v, sent⟩, hv, rfl⟩ := hφ
        refine h.putSlave ?_ (fun q => receive_sent hv)
        have hz := h.slave p.dst
        cases hf : f p.dst with
        | none =>
          rw [hf] at hz
          exact SlaveIdle.receive hz (h.net p hp) hv
        | some a =>
          rw [hf] at hz
          exact SlaveOrder.receive hz (h.net p hp) hv
      · exact absurd hφ (by simp)
    | handler z env =>
      simp only [Federation.step, Option.map_eq_some_iff] at hφ
      obtain ⟨⟨v, sent⟩, hv, rfl⟩ := hφ
      refine h.putSlave ?_ (fun q => handlerStep_sent hv)
      have hz := h.slave z
      cases hf : f z with
      | none =>
        rw [hf] at hz
        simp only [Slave.handlerStep, SlaveIdle.handler hz] at hv
        exact absurd hv (by simp)
      | some a =>
        rw [hf] at hz
        exact SlaveOrder.handlerStep hz hv
    | localWrite z env sql =>
      simp only [Federation.step, Option.map_eq_some_iff] at hφ
      obtain ⟨v, hv, rfl⟩ := hφ
      refine h.putSlave ?_ (by simp)
      have hz := h.slave z
      cases hf : f z with
      | none =>
        rw [hf] at hz
        exact SlaveIdle.localWrite hz hv
      | some a =>
        rw [hf] at hz
        exact SlaveOrder.localWrite hz hv
    | apply z env commit =>
      simp only [Federation.step] at hφ
      split at hφ
      · exact absurd hφ (by simp)
      · rename_i hs
        rw [← Option.some.inj hφ]
        refine h.putSlave ?_ (by simp)
        have hz := h.slave z
        cases hf : f z with
        | none =>
          rw [hf] at hz
          exact SlaveIdle.apply hz env commit
        | some a =>
          rw [hf] at hz
          exact SlaveOrder.apply hz (by simpa using hs) env commit

end Run

/-! ## Order of the federated records -/

/-- A log with federated commands, from the index `1` on. -/
def fedLogOf (commands : List Sql) : LogDB :=
  commands.foldl (fun l x => ((l.insertLogRecord true 0 x 1 (some 0)).map Prod.fst).getD l)
    (LogDB.construct [] 250000 100000 true 1 ['0'])

/-- A run in which a reply is lost: the slave gets the record `2` twice, answers with its last
index the second time, and then gets the record `3`. -/
def lostReplyRun : List (ℕ × ReplicationEvent) :=
  [(1, .fed (.updateZones 0 [1])), (2, .fed (.run 0 1 none)),
    (1, .fed (.receive ⟨1, 2, some 1, ['Y']⟩ false)), (3, .fed (.handler 1 .calm)),
    (1, .fed (.run 0 1 none)), (1, .write true 0 ['Z'] 1 true), (2, .fed (.run 0 1 none)),
    (1, .fed (.receive ⟨1, 2, some 1, ['Y']⟩ false)),
    (1, .fed (.run 0 1 (some (false, some 2)))), (3, .fed (.run 0 1 none)),
    (1, .fed (.receive ⟨1, 3, some 2, ['Z']⟩ false)), (3, .fed (.handler 1 .calm))]
