/-
# What the purge of the log leaves

`purge_log` deletes old applied records with two statements, one for the records of the zone and
one for the federated ones.  Each statement computes the least of the `log_retention` greatest
applied indexes of its kind and deletes applied records of its kind below it.

`purgeLog_filter` says once which records go.  The rest follows from it: a record that is not
applied stays, and so do the `log_retention` greatest applied records of each kind and the last
applied one.  As long as `last_applied` is not behind a record that is marked as applied, the records
from it on are the only ones that `apply_log_records` reads, so that every later call of it gives the
same answer as without the purge (`SameAhead`).
-/
import OpenNebula.LogCache

namespace LogDB

/-! ## The retained records -/

/-- In a descending list, a value that at most `k` of the values reach is one of the first `k`. -/
theorem mem_take_of_count_le {s : List ℕ} (hs : s.Pairwise (· ≥ ·)) {x k : ℕ} (hx : x ∈ s)
    (hk : (s.filter (fun y => x ≤ y)).length ≤ k) : x ∈ s.take k := by
  by_contra hnot
  have hdrop : x ∈ s.drop k := by
    rw [← List.take_append_drop k s, List.mem_append] at hx
    exact hx.resolve_left hnot
  have hlen : (s.take k).length = k := by
    have hpos := List.length_pos_of_mem hdrop
    rw [List.length_drop] at hpos
    rw [List.length_take]
    omega
  rw [← List.take_append_drop k s, List.pairwise_append] at hs
  have htake : (s.take k).filter (fun y => x ≤ y) = s.take k := by
    rw [List.filter_eq_self]
    intro y hy
    exact decide_eq_true (hs.2.2 y hy x hdrop)
  have hrest : 0 < ((s.drop k).filter (fun y => x ≤ y)).length :=
    List.length_pos_of_mem (List.mem_filter.mpr ⟨hdrop, by simp⟩)
  rw [← List.take_append_drop k s, List.filter_append, List.length_append, htake, hlen] at hk
  omega

/-- The applied rows of a kind from an index on. -/
def appliedFrom (l : LogDB) (p : LogRow → Bool) (i : ℕ) : List LogRow :=
  l.table.filter (fun q => p q && q.applied && decide (i ≤ q.index))

/-- The minimum is not above any of the `log_retention` greatest applied records. -/
theorem minRetained_le_of_retained {l : LogDB} {p : LogRow → Bool} {r : LogRow} {m : ℕ}
    (hr : r ∈ l.table) (hp : p r = true) (happ : r.applied = true)
    (hret : (l.appliedFrom p r.index).length ≤ l.logRetention)
    (hm : l.minRetained p = some m) : m ≤ r.index := by
  unfold minRetained at hm
  set idx := (l.table.filter (fun r => p r && r.applied)).map LogRow.index with hidx
  have hsort : (idx.mergeSort (fun a b => b ≤ a)).Pairwise (· ≥ ·) := by
    refine (List.pairwise_mergeSort ?_ ?_ idx).imp (fun h => of_decide_eq_true h)
    · intro a b c hab hbc
      rw [decide_eq_true_eq] at hab hbc ⊢
      omega
    · intro a b
      rw [Bool.or_eq_true, decide_eq_true_eq, decide_eq_true_eq]
      omega
  have hmem : r.index ∈ idx.mergeSort (fun a b => b ≤ a) := by
    rw [List.mem_mergeSort, hidx]
    exact List.mem_map_of_mem (List.mem_filter.mpr ⟨hr, by rw [hp, happ]; rfl⟩)
  have hcount : ((idx.mergeSort (fun a b => b ≤ a)).filter (fun y => r.index ≤ y)).length ≤
      l.logRetention := by
    rw [((List.mergeSort_perm idx _).filter _).length_eq, hidx, List.filter_map, List.length_map,
      List.filter_filter]
    refine le_trans (le_of_eq ?_) hret
    unfold appliedFrom
    congr 2
    funext q
    simp [Bool.and_comm]
  exact (List.min?_eq_some_iff.mp hm).2 _ (mem_take_of_count_le hsort hmem hcount)

theorem mem_of_minRetained {l : LogDB} {p : LogRow → Bool} {m : ℕ} (hm : l.minRetained p = some m) :
    ∃ q ∈ l.table, p q = true ∧ q.applied = true ∧ q.index = m := by
  have hmem := List.mem_of_mem_take (List.min?_mem hm)
  rw [List.mem_mergeSort, List.mem_map] at hmem
  obtain ⟨q, hq, rfl⟩ := hmem
  obtain ⟨hq, hpa⟩ := List.mem_filter.mp hq
  rw [Bool.and_eq_true] at hpa
  exact ⟨q, hq, hpa.1, hpa.2, rfl⟩

/-- With a retention of at least one record, there is a minimum as soon as there is an applied
record of the kind. -/
theorem exists_minRetained {l : LogDB} (hret : 1 ≤ l.logRetention) {p : LogRow → Bool} {r : LogRow}
    (hr : r ∈ l.table) (hp : p r = true) (happ : r.applied = true) :
    ∃ m, l.minRetained p = some m := by
  rw [← Option.isSome_iff_exists, minRetained, List.isSome_min?_iff]
  intro hnil
  rcases List.take_eq_nil_iff.mp hnil with hzero | hempty
  · omega
  · have hmem : r.index ∈ ((l.table.filter (fun r => p r && r.applied)).map
        LogRow.index).mergeSort (fun a b => b ≤ a) := by
      rw [List.mem_mergeSort]
      exact List.mem_map_of_mem (List.mem_filter.mpr ⟨hr, by rw [hp, happ]; rfl⟩)
    rw [hempty] at hmem
    exact absurd hmem (by simp)

/-! ## What `purge_log` deletes -/

/-- The records of the same kind as `r`: federated or not. -/
def sameKind (r q : LogRow) : Bool := q.fedIndex.isSome == r.fedIndex.isSome

theorem sameKind_of_none {r : LogRow} (h : r.fedIndex.isNone = true) :
    sameKind r = fun q => q.fedIndex.isNone := by
  funext q
  rw [Option.isNone_iff_eq_none] at h
  rw [sameKind, h]
  cases q.fedIndex <;> rfl

theorem sameKind_of_some {r : LogRow} (h : r.fedIndex.isSome = true) :
    sameKind r = fun q => q.fedIndex.isSome := by
  funext q
  rw [sameKind, h]
  cases q.fedIndex <;> rfl

/-- **What `purge_log` deletes**: applied records that are below the minimum of their kind. -/
theorem purgeLog_filter (l : LogDB) (hret : 1 ≤ l.logRetention) :
    ∃ (keep : LogRow → Bool) (fed : Finset ℕ),
      l.purgeLog.1 = { l with table := l.table.filter keep, fedLog := fed } ∧
      ∀ r ∈ l.table, keep r = false → r.applied = true ∧
        ∃ m, l.minRetained (sameKind r) = some m ∧ r.index < m := by
  obtain ⟨keep, heq, hdel⟩ := l.purgeRows_filter (fun r => r.fedIndex.isNone)
    (l.minRetained (fun r => r.fedIndex.isNone))
  have hlocal : ∀ r, keep r = false → r.applied = true ∧
      ∃ m, l.minRetained (sameKind r) = some m ∧ r.index < m := by
    intro r hk
    obtain ⟨-, happ, hkind, hmin⟩ := hdel r hk
    rw [sameKind_of_none hkind]
    exact ⟨happ, hmin⟩
  unfold LogDB.purgeLog
  dsimp only
  rw [heq]
  split
  · exact ⟨keep, l.fedLog, rfl, fun r _ hk => hlocal r hk⟩
  · -- the first statement leaves all the federated records
    have hfed : l.table.filter (fun r => r.fedIndex.isSome && r.applied) =
        (l.table.filter keep).filter (fun r => r.fedIndex.isSome && r.applied) := by
      rw [List.filter_filter]
      refine List.filter_congr ?_
      intro r _
      cases hk : keep r with
      | true => simp
      | false =>
        have hkind := (hdel r hk).2.2.1
        rw [Option.isNone_iff_eq_none] at hkind
        simp [hkind]
    have hmin : ({ l with table := l.table.filter keep } : LogDB).minRetained
        (fun r => r.fedIndex.isSome) = l.minRetained (fun r => r.fedIndex.isSome) := by
      unfold minRetained
      rw [hfed]
    rw [hmin]
    obtain ⟨keep', heq', hdel'⟩ := ({ l with table := l.table.filter keep } : LogDB).purgeRows_filter
      (fun r => r.fedIndex.isSome) ((l.minRetained (fun r => r.fedIndex.isSome)).or
        (l.minRetained (fun r => r.fedIndex.isNone)))
    rw [heq']
    refine ⟨fun r => keep r && keep' r, federated ((l.table.filter keep).filter keep'), ?_, ?_⟩
    · have htable : (l.table.filter keep).filter keep' =
          l.table.filter (fun r => keep r && keep' r) := by
        rw [List.filter_filter]
        congr 1
        funext r
        exact Bool.and_comm _ _
      rw [← htable]
    · intro r hr hk
      rcases Bool.and_eq_false_iff.mp hk with hk | hk
      · exact hlocal r hk
      · obtain ⟨-, happ, hkind, m, hm, hlt⟩ := hdel' r hk
        -- the record is federated and applied, so the second query has found a minimum
        obtain ⟨m', hm'⟩ := exists_minRetained (p := fun r => r.fedIndex.isSome) hret hr hkind happ
        rw [hm', Option.some_or, Option.some.injEq] at hm
        rw [sameKind_of_some hkind]
        exact ⟨happ, m', hm', by omega⟩

theorem not_mem_purgeLog {l : LogDB} (hret : 1 ≤ l.logRetention) {r : LogRow} (hr : r ∈ l.table)
    (hgone : r ∉ l.purgeLog.1.table) :
    r.applied = true ∧ ∃ m, l.minRetained (sameKind r) = some m ∧ r.index < m := by
  obtain ⟨keep, fed, heq, hdel⟩ := l.purgeLog_filter hret
  rw [heq, List.mem_filter] at hgone
  refine hdel r hr ?_
  by_contra hk
  exact hgone ⟨hr, by simpa using hk⟩

theorem mem_of_mem_purgeLog {l : LogDB} (hret : 1 ≤ l.logRetention) {r : LogRow}
    (hr : r ∈ l.purgeLog.1.table) : r ∈ l.table := by
  obtain ⟨keep, fed, heq, -⟩ := l.purgeLog_filter hret
  rw [heq] at hr
  exact (List.mem_filter.mp hr).1

/-- The `log_retention` greatest applied records of a kind stay. -/
theorem mem_purgeLog_of_retained {l : LogDB} (hret : 1 ≤ l.logRetention) {r : LogRow}
    (hr : r ∈ l.table) (hcount : (l.appliedFrom (sameKind r) r.index).length ≤ l.logRetention) :
    r ∈ l.purgeLog.1.table := by
  by_contra hgone
  obtain ⟨happ, m, hm, hlt⟩ := not_mem_purgeLog hret hr hgone
  have := minRetained_le_of_retained hr (by simp [sameKind]) happ hcount hm
  omega

/-- A record that no applied record is beyond stays. -/
theorem mem_purgeLog_of_last {l : LogDB} (hret : 1 ≤ l.logRetention) {r : LogRow}
    (hr : r ∈ l.table) (hlast : ∀ q ∈ l.table, q.applied = true → q.index ≤ r.index) :
    r ∈ l.purgeLog.1.table := by
  by_contra hgone
  obtain ⟨-, m, hm, hlt⟩ := not_mem_purgeLog hret hr hgone
  obtain ⟨q, hq, -, happ, rfl⟩ := mem_of_minRetained hm
  have := hlast q hq happ
  omega

/-! ## The log from `last_applied` on -/

/-- No record beyond `last_applied` is marked as applied. -/
def AppliedBehind (l : LogDB) : Prop := ∀ r ∈ l.table, r.applied = true → r.index ≤ l.lastApplied

theorem AppliedBehind.appliedIn {l : LogDB} (h : l.AppliedBehind) :
    l.AppliedIn (· ≤ l.lastApplied) := ⟨h, le_rfl⟩

/-- Two logs with the same records from `last_applied` on. -/
structure SameAhead (l l' : LogDB) : Prop where
  lastApplied : l'.lastApplied = l.lastApplied
  nextIndex : l'.nextIndex = l.nextIndex
  lastIndex : l'.lastIndex = l.lastIndex
  retention : l'.logRetention = l.logRetention
  behind : l.AppliedBehind
  behind' : l'.AppliedBehind
  rows : ∀ i, l.lastApplied ≤ i → l'.lookup i = l.lookup i

theorem SameAhead.symm {l l' : LogDB} (h : SameAhead l l') : SameAhead l' l where
  lastApplied := h.lastApplied.symm
  nextIndex := h.nextIndex.symm
  lastIndex := h.lastIndex.symm
  retention := h.retention.symm
  behind := h.behind'
  behind' := h.behind
  rows := fun i hi => (h.rows i (h.lastApplied ▸ hi)).symm

theorem SameAhead.trans {l l' l'' : LogDB} (h : SameAhead l l') (h' : SameAhead l' l'') :
    SameAhead l l'' where
  lastApplied := h'.lastApplied.trans h.lastApplied
  nextIndex := h'.nextIndex.trans h.nextIndex
  lastIndex := h'.lastIndex.trans h.lastIndex
  retention := h'.retention.trans h.retention
  behind := h.behind
  behind' := h'.behind'
  rows := fun i hi => (h'.rows i (h.lastApplied ▸ hi)).trans (h.rows i hi)

/-- **The purge** keeps the records from `last_applied` on. -/
theorem sameAhead_purgeLog {l : LogDB} (hret : 1 ≤ l.logRetention) (h : l.AppliedBehind) :
    SameAhead l l.purgeLog.1 := by
  have hsub : ∀ r ∈ l.purgeLog.1.table, r ∈ l.table := fun r hr => mem_of_mem_purgeLog hret hr
  obtain ⟨keep, fed, heq, hdel⟩ := l.purgeLog_filter hret
  rw [heq] at hsub ⊢
  refine ⟨rfl, rfl, rfl, rfl, h, fun r hr happ => h r (hsub r hr) happ, ?_⟩
  intro i hi
  refine lookup_filter ?_
  intro r hr hri
  by_contra hk
  obtain ⟨-, m, hm, hlt⟩ := hdel r hr (by simpa using hk)
  obtain ⟨q, hq, -, happ, rfl⟩ := mem_of_minRetained hm
  have := h q hq happ
  omega

/-! ### Insertion and deletion beyond `last_applied` -/

/-- The record at an index and the one before it, beyond `last_applied`. -/
theorem SameAhead.selectRecord {l l' : LogDB} (h : SameAhead l l') {i j : ℕ}
    (hi : l.lastApplied ≤ i) (hj : l.lastApplied ≤ j) (hpos : 0 < i) (b : Backend) :
    l'.selectRecord i j b = l.selectRecord i j b := by
  unfold LogDB.selectRecord
  rw [if_neg (by omega), h.rows i hi, h.rows j hj]

theorem SameAhead.finds {l l' : LogDB} (h : SameAhead l l') {b : Backend} {i : ℕ}
    (hi : l.lastApplied < i) (hf : l.Finds b i) : l'.Finds b i := by
  have hpred : pred64 i = i - 1 := if_neg (by omega)
  refine hf.imp_right (fun hs => ?_)
  rw [hpred] at hs ⊢
  rw [h.selectRecord hi.le (by omega) (by omega)]
  exact hs

/-- Two outcomes of an insertion: no answer, or the same one and logs that agree. -/
abbrev SameOutcome {α : Type} : Option (LogDB × α) → Option (LogDB × α) → Prop :=
  Option.Rel (fun a b => SameAhead a.1 b.1 ∧ b.2 = a.2)

/-- The same row is written to both logs. -/
theorem SameAhead.insertRow {l l' k k' : LogDB} (h : SameAhead l l') (row : LogRow)
    (hrow : row.applied = false)
    (ht : k.table = l.table.filter (fun r => r.index ≠ row.index) ++ [row])
    (ht' : k'.table = l'.table.filter (fun r => r.index ≠ row.index) ++ [row])
    (hk : k.lastApplied = l.lastApplied) (hk' : k'.lastApplied = l'.lastApplied)
    (hnext : k'.nextIndex = k.nextIndex) (hlast : k'.lastIndex = k.lastIndex)
    (hret : k'.logRetention = k.logRetention) : SameAhead k k' where
  lastApplied := by rw [hk', hk, h.lastApplied]
  nextIndex := hnext
  lastIndex := hlast
  retention := hret
  behind := by
    have hin := (h.behind.appliedIn.insertRow row ht hrow hk).rows
    rwa [← hk] at hin
  behind' := by
    have hin := (h.behind'.appliedIn.insertRow row ht' hrow hk').rows
    rwa [← hk'] at hin
  rows := by
    intro i hi
    rw [lookup_insertRow ht, lookup_insertRow ht', h.rows i (hk ▸ hi)]

theorem SameAhead.insert {l l' : LogDB} (h : SameAhead l l') {index : ℕ}
    (hidx : l.lastApplied < index) (dbOk : Bool) (term : ℕ) (sql : Sql) (fed : Option ℕ)
    (replace : Bool) (b : Backend) :
    SameOutcome (l.insert dbOk index term sql 0 fed replace b)
      (l'.insert dbOk index term sql 0 fed replace b) := by
  have hpred : pred64 index = index - 1 := if_neg (by omega)
  unfold LogDB.insert LogDB.getLogRecord
  rw [h.rows index hidx.le, hpred, h.selectRecord hidx.le (by omega) (by omega)]
  dsimp only
  split
  · exact Option.Rel.some ⟨h.insertRow ⟨index, term, sql, 0, fed, _⟩ rfl rfl rfl rfl rfl h.nextIndex
      h.lastIndex h.retention, rfl⟩
  · cases fed with
    | some f => exact Option.Rel.none
    | none => exact Option.Rel.some ⟨h, rfl⟩

/-- Only the cached values that `apply_log_records` does not read, and the next index, change. -/
theorem SameAhead.withIndexes {l l' : LogDB} (h : SameAhead l l') (next last term term' : ℕ)
    (fed fed' : Finset ℕ) :
    SameAhead { l with nextIndex := next, lastIndex := last, lastTerm := term, fedLog := fed }
      { l' with nextIndex := next, lastIndex := last, lastTerm := term', fedLog := fed' } :=
  ⟨h.lastApplied, rfl, rfl, h.retention, h.behind, h.behind', h.rows⟩

theorem SameAhead.insertLogRecord {l l' : LogDB} (h : SameAhead l l')
    (hnext : l.lastApplied < l.nextIndex) (dbOk : Bool) (term : ℕ) (sql : Sql) (fed : Option ℕ)
    (b : Backend) :
    SameOutcome (l.insertLogRecord dbOk term sql 0 fed b)
      (l'.insertLogRecord dbOk term sql 0 fed b) := by
  have hins := h.insert hnext dbOk term sql (if fed = some 0 then some l.nextIndex else fed) false b
  unfold LogDB.insertLogRecord
  dsimp only
  rw [h.nextIndex]
  generalize l.insert dbOk l.nextIndex term sql 0 _ false b = o at hins ⊢
  generalize l'.insert dbOk l.nextIndex term sql 0 _ false b = o' at hins ⊢
  cases hins with
  | none => exact Option.Rel.none
  | @some a b hab =>
    obtain ⟨k, ok⟩ := a
    obtain ⟨k', ok'⟩ := b
    obtain ⟨hk, hok⟩ := hab
    dsimp only at hk hok
    subst hok
    cases ok' with
    | false => exact Option.Rel.some ⟨h, rfl⟩
    | true => exact Option.Rel.some ⟨hk.withIndexes _ _ _ _ _ _, rfl⟩

theorem SameAhead.insertLogRecordAt {l l' : LogDB} (h : SameAhead l l') {index : ℕ}
    (hidx : l.lastApplied < index) (dbOk : Bool) (term : ℕ) (sql : Sql) (fed : Option ℕ)
    (replace : Bool) (b : Backend) :
    SameOutcome (l.insertLogRecordAt dbOk index term sql 0 fed replace b)
      (l'.insertLogRecordAt dbOk index term sql 0 fed replace b) := by
  have hins := h.insert hidx dbOk term sql fed replace b
  unfold LogDB.insertLogRecordAt
  rw [h.lastIndex]
  generalize l.insert dbOk index term sql 0 fed replace b = o at hins ⊢
  generalize l'.insert dbOk index term sql 0 fed replace b = o' at hins ⊢
  cases hins with
  | none => exact Option.Rel.none
  | @some a b hab =>
    obtain ⟨k, ok⟩ := a
    obtain ⟨k', ok'⟩ := b
    obtain ⟨hk, hok⟩ := hab
    dsimp only at hk hok
    subst hok
    cases ok' with
    | false => exact Option.Rel.some ⟨h, rfl⟩
    | true =>
      dsimp only
      refine Option.Rel.some ⟨?_, rfl⟩
      split
      · exact hk.withIndexes _ _ _ _ _ _
      · exact ⟨hk.lastApplied, hk.nextIndex, hk.lastIndex, hk.retention, hk.behind, hk.behind',
          hk.rows⟩

/-- `delete_log_records`, up to the term that it loads. -/
theorem deleteLogRecords_eq (l : LogDB) (start : ℕ) (b : Backend) :
    ∃ term, (l.deleteLogRecords true start b).1 = { l with
      table := l.table.filter (fun r => r.index < start)
      nextIndex := start
      lastIndex := pred64 start
      lastTerm := term } := by
  unfold LogDB.deleteLogRecords
  rw [if_pos rfl]
  dsimp only
  split
  · exact ⟨_, rfl⟩
  · exact ⟨l.lastTerm, rfl⟩

theorem SameAhead.deleteLogRecords {l l' : LogDB} (h : SameAhead l l') (dbOk : Bool) (start : ℕ)
    (b : Backend) :
    SameAhead (l.deleteLogRecords dbOk start b).1 (l'.deleteLogRecords dbOk start b).1 := by
  cases dbOk with
  | false => exact h
  | true =>
    obtain ⟨t, ht⟩ := l.deleteLogRecords_eq start b
    obtain ⟨t', ht'⟩ := l'.deleteLogRecords_eq start b
    rw [ht, ht']
    refine ⟨h.lastApplied, rfl, rfl, h.retention, ?_, ?_, ?_⟩
    · exact fun r hr happ => h.behind r (List.mem_filter.mp hr).1 happ
    · exact fun r hr happ => h.behind' r (List.mem_filter.mp hr).1 happ
    · intro i hi
      refine (lookup_deleteRows (l := l') rfl i).trans ?_
      rw [h.rows i hi]
      exact (lookup_deleteRows (l := l) rfl i).symm

/-! ### Application -/

theorem AppliedBehind.applyLogRecord {l : LogDB} (h : l.AppliedBehind) (dbOk : Bool) (now : ℕ)
    {lr : LogDBRecord} (rc : SqlError) (hlr : l.lastApplied ≤ lr.index) :
    (l.applyLogRecord dbOk now lr rc).1.AppliedBehind := by
  have hin : l.AppliedIn (· ≤ lr.index) := ⟨fun r hr happ => (h r hr happ).trans hlr, hlr⟩
  rcases applyLogRecord_cases l dbOk now lr rc with heq | heq
  · rw [heq]
    exact h
  · intro r hr happ
    rw [heq]
    exact (hin.applyLogRecord dbOk now rc le_rfl).rows r hr happ

theorem SameAhead.applyLogRecord {l l' : LogDB} (h : SameAhead l l') (dbOk : Bool) (now : ℕ)
    {lr : LogDBRecord} (rc : SqlError) (hlr : l.lastApplied ≤ lr.index) :
    SameAhead (l.applyLogRecord dbOk now lr rc).1 (l'.applyLogRecord dbOk now lr rc).1 ∧
      (l'.applyLogRecord dbOk now lr rc).2 = (l.applyLogRecord dbOk now lr rc).2 := by
  have hb := h.behind.applyLogRecord dbOk now rc hlr
  have hb' := h.behind'.applyLogRecord dbOk now rc (h.lastApplied.trans_le hlr)
  unfold LogDB.applyLogRecord at hb hb' ⊢
  split
  · rename_i hrc
    rw [if_pos hrc] at hb hb'
    refine ⟨⟨rfl, h.nextIndex, h.lastIndex, h.retention, hb, hb', ?_⟩, rfl⟩
    intro i hi
    have hrow := h.rows i (hlr.trans hi)
    cases dbOk with
    | false => exact hrow
    | true =>
      have hf : ∀ r : LogRow, (if r.index = lr.index ∧ r.timestamp = 0 then
          { r with timestamp := now, applied := true } else r).index = r.index := by
        intro r
        split <;> rfl
      refine (lookup_markRows (l := l') rfl hf i).trans ?_
      rw [hrow]
      exact (lookup_markRows (l := l) rfl hf i).symm
  · exact ⟨h, rfl⟩

/-- The loop of `apply_log_records` finds the same records. -/
theorem SameAhead.reportedLoop (b : Backend) (dbOk : Bool) (now : ℕ) (exec : ℕ → SqlError) (n : ℕ) :
    ∀ {l l' : LogDB}, SameAhead l l' →
      SameAhead (LogDB.reportedLoop b dbOk now exec n l).1
          (LogDB.reportedLoop b dbOk now exec n l').1 ∧
        (LogDB.reportedLoop b dbOk now exec n l').2 =
          (LogDB.reportedLoop b dbOk now exec n l).2 := by
  induction n with
  | zero => exact fun h => ⟨h, rfl⟩
  | succ n ih =>
    intro l l' h
    unfold LogDB.reportedLoop LogDB.applyLoop
    rw [h.lastApplied, h.selectRecord (by omega) le_rfl (by omega)]
    cases hg : l.selectRecord (l.lastApplied + 1) l.lastApplied b with
    | none => exact ⟨h, rfl⟩
    | some lr =>
      have hlr : l.lastApplied ≤ lr.index := by
        rw [selectRecord_index hg]
        omega
      obtain ⟨hrec, hok⟩ := h.applyLogRecord dbOk now (exec lr.index) hlr
      obtain ⟨hloop, hans⟩ := ih hrec
      dsimp only
      rw [hok, hrec.lastApplied]
      split
      · refine ⟨hloop, Prod.ext ?_ ?_⟩
        · have hret := congrArg Prod.fst hans
          exact hret
        · have hrecs := congrArg Prod.snd hans
          exact congrArg (_ ++ ·) hrecs
      · exact ⟨hrec, rfl⟩

theorem SameAhead.applyLogRecords {l l' : LogDB} (h : SameAhead l l') {b : Backend} {commit : ℕ}
    (hf : ∀ i, i ≤ commit → l.lastApplied < i → l.Finds b i) (dbOk : Bool) (now : ℕ)
    (exec : ℕ → SqlError) :
    SameAhead (l.applyLogRecords dbOk now exec commit b).1
        (l'.applyLogRecords dbOk now exec commit b).1 ∧
      (l'.applyLogRecords dbOk now exec commit b).2 =
        (l.applyLogRecords dbOk now exec commit b).2 := by
  have hf' : ∀ i, i ≤ commit → l'.lastApplied < i → l'.Finds b i :=
    fun i hi hlt => h.finds (h.lastApplied ▸ hlt) (hf i hi (h.lastApplied ▸ hlt))
  rw [applyLogRecords_eq hf, applyLogRecords_eq hf', h.lastApplied]
  exact SameAhead.reportedLoop b dbOk now exec (commit - l.lastApplied) h

/-! ## Later calls -/

/-- The operations that work on the log beyond `last_applied`: they insert records that are still to
be applied, and `apply_log_records` finds the records or is told that one is missing. -/
def Ahead (l : LogDB) : Backend × Op → Prop
  | (_, .insertLogRecord _ _ _ ts _) => l.lastApplied < l.nextIndex ∧ ts = 0
  | (_, .insertLogRecordAt _ index _ _ ts _ _) => l.lastApplied < index ∧ ts = 0
  | (_, .deleteLogRecords _ start) => l.lastApplied < start
  | (b, .applyLogRecords _ _ _ commit) => ∀ i, i ≤ commit → l.lastApplied < i → l.Finds b i
  | (_, .purgeLog) => 1 ≤ l.logRetention
  | (_, .setupIndex) => False

/-- All the operations of a list are of this kind when they are executed. -/
def RunsAhead : LogDB → List (Backend × Op) → Prop
  | _, [] => True
  | l, e :: es => l.Ahead e ∧ ∀ l', l.step e = some l' → RunsAhead l' es

/-- What a call of `apply_log_records` returns and the records that it consumes. -/
def answer (l : LogDB) : Backend × Op → Option (Bool × List LogDBRecord)
  | (b, .applyLogRecords dbOk now exec commit) => some (l.applyLogRecords dbOk now exec commit b).2
  | _ => none

/-- The answers along a list of operations; a call that does not return ends it. -/
def answers : LogDB → List (Backend × Op) → List (Option (Bool × List LogDBRecord))
  | _, [] => []
  | l, e :: es =>
    l.answer e :: match l.step e with
      | some l' => answers l' es
      | none => []

/-- Two outcomes without their answers. -/
theorem rel_map_fst {α : Type} {o o' : Option (LogDB × α)} (h : SameOutcome o o') :
    Option.Rel SameAhead (o.map Prod.fst) (o'.map Prod.fst) := by
  cases h with
  | none => exact Option.Rel.none
  | some hab => exact Option.Rel.some hab.1

/-- **One operation** on two logs that agree from `last_applied` on. -/
theorem SameAhead.step {l l' : LogDB} (h : SameAhead l l') {e : Backend × Op} (hop : l.Ahead e) :
    Option.Rel SameAhead (l.step e) (l'.step e) ∧ l'.answer e = l.answer e := by
  obtain ⟨b, op⟩ := e
  cases op with
  | insertLogRecord dbOk term sql ts fed =>
    obtain ⟨hnext, rfl⟩ := hop
    exact ⟨rel_map_fst (h.insertLogRecord hnext dbOk term sql fed b), rfl⟩
  | insertLogRecordAt dbOk index term sql ts fed replace =>
    obtain ⟨hidx, rfl⟩ := hop
    exact ⟨rel_map_fst (h.insertLogRecordAt hidx dbOk term sql fed replace b), rfl⟩
  | deleteLogRecords dbOk start =>
    exact ⟨Option.Rel.some (h.deleteLogRecords dbOk start b), rfl⟩
  | applyLogRecords dbOk now exec commit =>
    obtain ⟨hsame, hans⟩ := h.applyLogRecords hop dbOk now exec
    exact ⟨Option.Rel.some hsame, congrArg some hans⟩
  | purgeLog =>
    have hpurge := sameAhead_purgeLog (l := l) hop h.behind
    have hpurge' := sameAhead_purgeLog (l := l') (h.retention ▸ hop) h.behind'
    exact ⟨Option.Rel.some ((hpurge.symm.trans h).trans hpurge'), rfl⟩
  | setupIndex => exact absurd hop (by simp [Ahead])

/-- The answers of two logs that agree from `last_applied` on. -/
theorem SameAhead.answers (es : List (Backend × Op)) :
    ∀ {l l' : LogDB}, SameAhead l l' → l.RunsAhead es → LogDB.answers l' es = LogDB.answers l es := by
  induction es with
  | nil => exact fun _ _ => rfl
  | cons e es ih =>
    intro l l' h hrun
    obtain ⟨hstep, hans⟩ := h.step hrun.1
    have hrest := hrun.2
    unfold LogDB.answers
    rw [hans]
    generalize l.step e = o at hstep hrest ⊢
    generalize l'.step e = o' at hstep ⊢
    cases hstep with
    | none => rfl
    | @some k k' hk =>
      dsimp only
      rw [ih hk (hrest k rfl)]

/-! ## The purge as a whole -/

/-- **Purge safety.**  `purge_log` deletes nothing but applied records that have more than
`log_retention` applied records of their kind from their index on.  It keeps every record that is
not applied, the `log_retention` greatest applied records of each kind and the greatest applied
record of all; and, if no record beyond `last_applied` is marked as applied, every later call of
`apply_log_records` returns the same answer and consumes the same records as without the purge. -/
theorem purge_safe (l : LogDB) (hret : 1 ≤ l.logRetention) :
    (∀ r ∈ l.purgeLog.1.table, r ∈ l.table) ∧
      (∀ r ∈ l.table, r ∉ l.purgeLog.1.table → r.applied = true) ∧
      (∀ r ∈ l.table, (l.appliedFrom (sameKind r) r.index).length ≤ l.logRetention →
        r ∈ l.purgeLog.1.table) ∧
      (∀ r ∈ l.table, r.applied = false → r ∈ l.purgeLog.1.table) ∧
      (∀ r ∈ l.table, (∀ q ∈ l.table, q.applied = true → q.index ≤ r.index) →
        r ∈ l.purgeLog.1.table) ∧
      (l.AppliedBehind → ∀ es, l.RunsAhead es →
        answers l.purgeLog.1 es = answers l es) := by
  refine ⟨fun r hr => mem_of_mem_purgeLog hret hr, ?_, ?_, ?_, ?_, ?_⟩
  · intro r hr hgone
    exact (not_mem_purgeLog hret hr hgone).1
  · intro r hr hcount
    exact mem_purgeLog_of_retained hret hr hcount
  · intro r hr happ
    by_contra hgone
    rw [(not_mem_purgeLog hret hr hgone).1] at happ
    exact absurd happ (by simp)
  · intro r hr hlast
    exact mem_purgeLog_of_last hret hr hlast
  · intro hbehind es hrun
    exact (sameAhead_purgeLog hret hbehind).answers es hrun

/-- A log with a federated record, of which four records are applied. -/
def purgeExample : LogDB where
  table := [⟨0, 0, ['0'], 1, none, true⟩, ⟨1, 1, ['A'], 1, none, true⟩, ⟨2, 1, ['B'], 1, some 2, true⟩,
    ⟨3, 1, ['C'], 1, none, true⟩, ⟨4, 1, ['D'], 0, none, false⟩]
  nextIndex := 5
  lastApplied := 3
  lastIndex := 4
  lastTerm := 1
  fedLog := {2}
  logRetention := 1
  limitPurge := 100000
  limit := true

theorem purge_safe_purgeExample :
    (∀ r ∈ purgeExample.table, 2 ≤ r.index → r ∈ purgeExample.purgeLog.1.table) ∧
      answers purgeExample.purgeLog.1 [({}, .applyLogRecords true 7 (fun _ => .success) 4)] =
        answers purgeExample [({}, .applyLogRecords true 7 (fun _ => .success) 4)] := by
  obtain ⟨-, -, hkept, hnew, -, hlater⟩ := purge_safe purgeExample (by decide)
  have hbehind : purgeExample.AppliedBehind := by
    intro r hr
    revert r
    decide
  have hcase : ∀ r ∈ purgeExample.table, 2 ≤ r.index → r.applied = false ∨
      (purgeExample.appliedFrom (sameKind r) r.index).length ≤ purgeExample.logRetention := by
    decide
  refine ⟨?_, hlater hbehind _ ⟨fun _ _ _ => Or.inl rfl, fun _ _ => trivial⟩⟩
  intro r hr hidx
  rcases hcase r hr hidx with happ | hcount
  · exact hnew r hr happ
  · exact hkept r hr hcount

/-- Two records that were inserted as applied ones, as a server does that is alone, and that the
cursor has not passed. -/
def aloneExample : LogDB where
  table := [⟨2, 1, ['B'], 1, none, true⟩, ⟨1, 1, ['A'], 1, none, true⟩,
    ⟨0, 0, ['0'], 1, none, true⟩]
  nextIndex := 3
  lastApplied := 0
  lastIndex := 2
  lastTerm := 1
  fedLog := ∅
  logRetention := 1
  limitPurge := 100000
  limit := true

/-- The purge deletes the record that `apply_log_records` looks for next. -/
theorem purge_hides_records :
    ¬ ∀ l : LogDB, 1 ≤ l.logRetention → ∀ dbOk now exec commit,
      (l.purgeLog.1.applyLogRecords dbOk now exec commit).2.2 =
        (l.applyLogRecords dbOk now exec commit).2.2 := by
  intro h
  have hmin : aloneExample.minRetained (fun r => r.fedIndex.isNone) = some 2 := by
    unfold minRetained
    rw [List.mergeSort_of_pairwise (by decide)]
    decide
  have hpurged : (aloneExample.purgeLog.1.applyLogRecords true 7 (fun _ => .success) 2).2.2 = [] := by
    unfold purgeLog
    rw [hmin]
    decide
  have hsame := h aloneExample (by decide) true 7 (fun _ => .success) 2
  rw [hpurged] at hsame
  exact absurd hsame (by decide)

end LogDB
