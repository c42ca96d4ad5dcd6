/-
# The cached values of the log

`LogDB` keeps the greatest index of the table, the next one, the term of the last record and the set
of federated indexes next to the table, and every operation changes them by itself.  `Coherent` says
that they agree with the table.

Most operations keep them right from any coherent state: the leader's append, the insertion of a
record at a free index, the application of records, and also `purge_log`, which never deletes the
last record.  The exceptions are listed in `CacheOk` and `StartOk`: `delete_log_records` does not
rebuild the set of federated indexes, and finds the term of the record that becomes the last one only
if the record before it is there too; a record that is replaced leaves its federated index and its
term behind; the constructor needs the record before the last one; and a query that finds no row and
does not report it makes a failed insertion look like a duplicate, or gives `setup_index` and
`delete_log_records` a term of no record.
-/
import OpenNebula.LogContents
import OpenNebula.Transition

open Transition

namespace LogDB

/-! ## Coherence -/

/-- The cached values agree with the table. -/
structure Coherent (l : LogDB) : Prop where
  greatest : l.maxIndex (fun _ => true) = some l.lastIndex
  next : l.nextIndex = l.lastIndex + 1
  term : (l.lookup l.lastIndex).map LogRow.term = some l.lastTerm
  federated : l.fedLog = federated l.table

theorem mem_federated {t : List LogRow} {f : ℕ} :
    f ∈ federated t ↔ ∃ r ∈ t, r.fedIndex = some f := by
  rw [LogDB.federated, List.mem_toFinset, List.mem_filterMap]

theorem Coherent.le {l : LogDB} (h : l.Coherent) {r : LogRow} (hr : r ∈ l.table) :
    r.index ≤ l.lastIndex :=
  (maxIndex_spec h.greatest).2 r hr rfl

theorem Coherent.lookup_eq_none {l : LogDB} (h : l.Coherent) {i : ℕ} (hi : l.lastIndex < i) :
    l.lookup i = none := by
  rw [lookup, List.find?_eq_none]
  intro r hr
  have := h.le hr
  rw [decide_eq_true_eq]
  omega

/-- It is enough to know the last row. -/
theorem Coherent.of_last {l : LogDB} {r : LogRow} (hlast : l.lookup l.lastIndex = some r)
    (hle : ∀ q ∈ l.table, q.index ≤ l.lastIndex) (hnext : l.nextIndex = l.lastIndex + 1)
    (hterm : r.term = l.lastTerm) (hfed : ∀ f, f ∈ l.fedLog ↔ ∃ q ∈ l.table, q.fedIndex = some f) :
    l.Coherent where
  greatest := by
    obtain ⟨hr, hi⟩ := lookup_some hlast
    obtain ⟨m, hm⟩ := exists_maxIndex (p := fun _ => true) hr rfl
    obtain ⟨⟨q, hq, -, hqm⟩, hmax⟩ := maxIndex_spec hm
    have h1 := hle q hq
    have h2 := hmax r hr rfl
    rw [hm, Option.some.injEq]
    omega
  next := hnext
  term := by rw [hlast, Option.map_some, hterm]
  federated := by
    ext f
    rw [hfed f, mem_federated]

theorem Coherent.exists_last {l : LogDB} (h : l.Coherent) :
    ∃ r, l.lookup l.lastIndex = some r ∧ r.term = l.lastTerm :=
  Option.map_eq_some_iff.mp h.term

theorem Coherent.mem_fedLog {l : LogDB} (h : l.Coherent) (f : ℕ) :
    f ∈ l.fedLog ↔ ∃ q ∈ l.table, q.fedIndex = some f := by
  rw [h.federated, mem_federated]

/-! ## Insertion -/

theorem mem_insertRow {t : List LogRow} {row q : LogRow} :
    q ∈ t.filter (fun r => r.index ≠ row.index) ++ [row] ↔
      (q ∈ t ∧ q.index ≠ row.index) ∨ q = row := by
  simp

/-- A row with the federated index `fed` is written: the set of federated indexes grows by it, if
the row that it replaces has left nothing behind. -/
theorem mem_fedLog_insertRow {l l' : LogDB} (h : l.Coherent) {row : LogRow}
    (ht : l'.table = l.table.filter (fun r => r.index ≠ row.index) ++ [row])
    (hfed : l'.fedLog = row.fedIndex.elim l.fedLog (fun f => Insert.insert f l.fedLog))
    (hold : ∀ r ∈ l.table, r.index = row.index → ∀ f, r.fedIndex = some f →
      row.fedIndex = some f ∨ ∃ q ∈ l.table, q.index ≠ row.index ∧ q.fedIndex = some f) (f : ℕ) :
    f ∈ l'.fedLog ↔ ∃ q ∈ l'.table, q.fedIndex = some f := by
  have hin : f ∈ l'.fedLog ↔ row.fedIndex = some f ∨ f ∈ l.fedLog := by
    rw [hfed]
    cases hrow : row.fedIndex with
    | none => simp
    | some g => simp [eq_comm]
  rw [hin, h.mem_fedLog, ht]
  constructor
  · rintro (hrow | ⟨q, hq, hqf⟩)
    · exact ⟨row, mem_insertRow.mpr (Or.inr rfl), hrow⟩
    · by_cases hi : q.index = row.index
      · rcases hold q hq hi f hqf with hrow | ⟨q', hq', hi', hqf'⟩
        · exact ⟨row, mem_insertRow.mpr (Or.inr rfl), hrow⟩
        · exact ⟨q', mem_insertRow.mpr (Or.inl ⟨hq', hi'⟩), hqf'⟩
      · exact ⟨q, mem_insertRow.mpr (Or.inl ⟨hq, hi⟩), hqf⟩
  · rintro ⟨q, hq, hqf⟩
    rcases mem_insertRow.mp hq with ⟨hq, -⟩ | rfl
    · exact Or.inr ⟨q, hq, hqf⟩
    · exact Or.inl hqf

/-- **The leader's append** keeps the cached values right. -/
theorem Coherent.insertLogRecord {l l' : LogDB} (h : l.Coherent) {dbOk : Bool} {term ts : ℕ}
    {sql : Sql} {fed o : Option ℕ} {b : Backend} (hf : dbOk = true ∨ l.Finds b l.nextIndex)
    (hins : l.insertLogRecord dbOk term sql ts fed b = some (l', o)) : l'.Coherent := by
  have hfree : l.lookup l.nextIndex = none := h.lookup_eq_none (by have := h.next; omega)
  rcases insertLogRecord_cases hins with ⟨-, rfl, -⟩ | ⟨-, hnext, hlast, hterm, -, hcase⟩
  · exact h
  · rcases hcase with ⟨-, hfed, row, hidx, hrt, -, hrf, -, ht⟩ | ⟨hknown, -⟩
    · refine Coherent.of_last (r := row) ?_ ?_ (by rw [hnext, hlast]) (by rw [hrt, hterm]) ?_
      · rw [hlast, lookup_insertRow ht, hidx, if_pos rfl]
      · intro q hq
        rw [ht, mem_insertRow] at hq
        rcases hq with ⟨hq, -⟩ | rfl
        · have := h.le hq
          have := h.next
          omega
        · omega
      · refine mem_fedLog_insertRow h ht ?_ ?_
        · rw [hfed, hrf]
          cases (if fed = some 0 then some l.nextIndex else fed) <;> rfl
        · intro r hr hri
          have := h.le hr
          have := h.next
          omega
    · have hsome := hknown.isSome hf
      rw [hfree] at hsome
      exact absurd hsome (by simp)

/-- **The insertion of a received record** keeps the cached values right, if a row that it replaces
leaves nothing behind. -/
theorem Coherent.insertLogRecordAt {l l' : LogDB} (h : l.Coherent) {dbOk replace ok : Bool}
    {index term ts : ℕ} {sql : Sql} {fed : Option ℕ} {b : Backend}
    (hf : dbOk = true ∨ index ≤ l.lastIndex ∨ l.Finds b index)
    (hins : l.insertLogRecordAt dbOk index term sql ts fed replace b = some (l', ok))
    (hterm : replace = true → ∀ r, l.lookup index = some r → index = l.lastIndex → r.term = term)
    (hold : replace = true → ∀ r ∈ l.table, r.index = index → ∀ f, r.fedIndex = some f →
      fed = some f ∨ ∃ q ∈ l.table, q.index ≠ index ∧ q.fedIndex = some f) : l'.Coherent := by
  obtain ⟨last, hlast, hlt⟩ := h.exists_last
  rcases insertLogRecordAt_cases hins with ⟨-, rfl⟩ | ⟨-, -, hli, hlterm, hnext, hcase⟩
  · exact h
  · rcases hcase with ⟨hfed, hrep, row, hidx, hrt, -, hrf, -, ht⟩ | ⟨hknown, -, hfed, ht⟩
    · have hle : ∀ q ∈ l'.table, q.index ≤ l'.lastIndex := by
        intro q hq
        rw [ht, mem_insertRow] at hq
        rw [hli]
        rcases hq with ⟨hq, -⟩ | rfl
        · have := h.le hq
          split <;> omega
        · split <;> omega
      have hfed' : ∀ f, f ∈ l'.fedLog ↔ ∃ q ∈ l'.table, q.fedIndex = some f := by
        refine mem_fedLog_insertRow h ht (by rw [hfed, hrf]) ?_
        intro r hr hri f hf
        rw [hidx] at hri ⊢
        rw [hrf]
        rcases hrep with hrep | hnone
        · exact hold hrep r hr hri f hf
        · have hsome := lookup_isSome_of_mem hr
          rw [hri, hnone] at hsome
          exact absurd hsome (by simp)
      by_cases hlt' : l.lastIndex < index
      · rw [if_pos hlt'] at hli hlterm hnext
        refine Coherent.of_last (r := row) ?_ hle (by rw [hnext, hli]) (by rw [hrt, hlterm]) hfed'
        rw [hli, lookup_insertRow ht, hidx, if_pos rfl]
      · rw [if_neg hlt'] at hli hlterm hnext
        have hnext' : l'.nextIndex = l'.lastIndex + 1 := by rw [hnext, hli, h.next]
        by_cases heq : index = l.lastIndex
        · refine Coherent.of_last (r := row) ?_ hle hnext' ?_ hfed'
          · rw [hli, lookup_insertRow ht, hidx, if_pos heq.symm]
          · rcases hrep with hrep | hnone
            · rw [hrt, hlterm, ← hlt, hterm hrep last (heq ▸ hlast) heq]
            · rw [heq, hlast] at hnone
              exact absurd hnone (by simp)
        · refine Coherent.of_last (r := last) ?_ hle hnext' (by rw [hlt, hlterm]) hfed'
          rw [hli, lookup_insertRow ht, hidx, if_neg (Ne.symm heq)]
          exact hlast
    · have hnot : ¬ l.lastIndex < index := by
        intro hlt'
        have hsome := hknown.isSome (hf.imp_right (fun hf => hf.resolve_left (by omega)))
        rw [h.lookup_eq_none hlt'] at hsome
        exact absurd hsome (by simp)
      rw [if_neg hnot] at hli hlterm hnext
      refine Coherent.of_last (r := last) ?_ ?_ (by rw [hnext, hli, h.next]) (by rw [hlt, hlterm]) ?_
      · rw [hli, lookup, ht]
        exact hlast
      · intro q hq
        rw [hli]
        exact h.le (ht ▸ hq)
      · intro f
        rw [hfed, ht]
        exact h.mem_fedLog f

/-! ## Deletion -/

/-- The query for a record that is there: it gives the term of the record, or, without the record
before it, reports that there is no row. -/
theorem getLogRecord_last {l : LogDB} {i : ℕ} {r : LogRow} (hr : l.lookup i = some r) {b : Backend}
    {P : Prop} (h : (l.lookup (if i = 0 then 0 else pred64 i)).isSome ∨ (b.unfilled = [] ∧ P)) :
    (∃ lr, l.getLogRecord i (pred64 i) b = some lr ∧ r.term = lr.term) ∨
      (l.getLogRecord i (pred64 i) b = none ∧ b.unfilled = [] ∧ P) := by
  unfold getLogRecord selectRecord
  rw [hr]
  cases hq : l.lookup (if i = 0 then 0 else pred64 i) with
  | some q => exact Or.inl ⟨_, rfl, rfl⟩
  | none =>
    rw [hq] at h
    obtain ⟨hb, hP⟩ := h.resolve_left (by simp)
    rw [hb]
    exact Or.inr ⟨rfl, rfl, hP⟩

/-- **`delete_log_records`** keeps the cached values right if it leaves the record before `start`
and enough to find its term, and if it deletes no federated index for good. -/
theorem Coherent.deleteLogRecords {l : LogDB} (h : l.Coherent) {dbOk : Bool} {start : ℕ}
    {b : Backend} (hpos : dbOk = true → 0 < start)
    (hlast : dbOk = true → ∃ r, l.lookup (start - 1) = some r ∧
      (start = 1 ∨ (l.lookup (start - 2)).isSome ∨ (b.unfilled = [] ∧ r.term = l.lastTerm)))
    (hfed : dbOk = true → ∀ r ∈ l.table, start ≤ r.index → ∀ f, r.fedIndex = some f →
      ∃ q ∈ l.table, q.index < start ∧ q.fedIndex = some f) :
    (l.deleteLogRecords dbOk start b).1.Coherent := by
  cases dbOk with
  | false => exact h
  | true =>
    have hpos := hpos rfl
    obtain ⟨r, hr, hbefore⟩ := hlast rfl
    have hp : pred64 start = start - 1 := if_neg (by omega)
    -- the log after the deletion, before the term is looked up
    let l₁ : LogDB := { l with
      table := l.table.filter (fun r => r.index < start)
      nextIndex := start
      lastIndex := pred64 start }
    have ht : l₁.table = l.table.filter (fun r => r.index < start) := rfl
    have hr₁ : l₁.lookup l₁.lastIndex = some r := by
      rw [show l₁.lastIndex = start - 1 from hp, lookup_deleteRows ht, if_pos (by omega), hr]
    -- whatever term is loaded, the rest is right
    have hcoh : ∀ t, r.term = t → ({ l₁ with lastTerm := t } : LogDB).Coherent := by
      intro t htt
      refine Coherent.of_last (r := r) hr₁ ?_ ?_ htt ?_
      · intro q hq
        have hq' := (List.mem_filter.mp hq).2
        rw [decide_eq_true_eq] at hq'
        show q.index ≤ pred64 start
        omega
      · show start = pred64 start + 1
        omega
      · intro f
        show f ∈ l.fedLog ↔ ∃ q ∈ l.table.filter (fun r => r.index < start), q.fedIndex = some f
        rw [h.mem_fedLog]
        constructor
        · rintro ⟨q, hq, hqf⟩
          by_cases hlt : q.index < start
          · exact ⟨q, List.mem_filter.mpr ⟨hq, by simpa using hlt⟩, hqf⟩
          · obtain ⟨q', hq', hlt', hqf'⟩ := hfed rfl q hq (by omega) f hqf
            exact ⟨q', List.mem_filter.mpr ⟨hq', by simpa using hlt'⟩, hqf'⟩
        · rintro ⟨q, hq, hqf⟩
          exact ⟨q, (List.mem_filter.mp hq).1, hqf⟩
    have hdel : (l.deleteLogRecords true start b).1 =
        (l₁.getLogRecord l₁.lastIndex (pred64 l₁.lastIndex) b).elim l₁
          fun lr => { l₁ with lastTerm := lr.term } := by
      unfold LogDB.deleteLogRecords
      rw [if_pos rfl]
      dsimp only
      split <;> rename_i hg <;> rw [hg] <;> rfl
    -- the record before the last one is there, or the query for the last one reports it
    have hread : (l₁.lookup (if l₁.lastIndex = 0 then 0 else pred64 l₁.lastIndex)).isSome ∨
        (b.unfilled = [] ∧ r.term = l.lastTerm) := by
      by_cases hzero : l₁.lastIndex = 0
      · rw [if_pos hzero, ← hzero, hr₁]
        exact Or.inl rfl
      · have hzero' : start - 1 ≠ 0 := hp ▸ hzero
        have hi : pred64 l₁.lastIndex = start - 2 := by
          rw [pred64, if_neg hzero]
          show pred64 start - 1 = start - 2
          omega
        rw [if_neg hzero, hi, lookup_deleteRows ht, if_pos (by omega)]
        exact hbefore.resolve_left (by omega)
    rw [hdel]
    rcases getLogRecord_last hr₁ hread with ⟨lr, hg, hterm⟩ | ⟨hg, -, hsame⟩
    · rw [hg]
      exact hcoh lr.term hterm
    · rw [hg]
      exact hcoh l.lastTerm hsame

/-! ## Application, `setup_index` and purge -/

theorem mem_of_content {t t' : List LogRow} (ht : t'.map rowContent = t.map rowContent)
    {q : LogRow} (hq : q ∈ t') : ∃ q' ∈ t, rowContent q' = rowContent q := by
  have hmem := List.mem_map_of_mem (f := rowContent) hq
  rw [ht] at hmem
  exact List.mem_map.mp hmem

/-- The marks of applied records are not part of what is cached. -/
theorem Coherent.marks {l l' : LogDB} (h : l.Coherent) (hm : Marks l l') : l'.Coherent := by
  obtain ⟨last, hlast, hterm⟩ := h.exists_last
  have hlook := hm.lookup l.lastIndex
  rw [hlast, Option.map_some, Option.map_eq_some_iff] at hlook
  obtain ⟨r, hr, hrc⟩ := hlook
  refine Coherent.of_last (r := r) (by rw [hm.lastIndex]; exact hr) ?_ ?_ ?_ ?_
  · intro q hq
    obtain ⟨q', hq', hc⟩ := mem_of_content hm.content hq
    rw [hm.lastIndex, ← (Prod.mk.inj hc).1]
    exact h.le hq'
  · rw [hm.nextIndex, hm.lastIndex, h.next]
  · rw [hm.lastTerm, ← hterm]
    exact (Prod.mk.inj (Prod.mk.inj hrc).2).1
  · intro f
    rw [hm.fedLog, h.mem_fedLog]
    constructor
    · rintro ⟨q, hq, hqf⟩
      obtain ⟨q', hq', hc⟩ := mem_of_content hm.content.symm hq
      exact ⟨q', hq', (Prod.mk.inj (Prod.mk.inj (Prod.mk.inj hc).2).2).2.trans hqf⟩
    · rintro ⟨q, hq, hqf⟩
      obtain ⟨q', hq', hc⟩ := mem_of_content hm.content hq
      exact ⟨q', hq', (Prod.mk.inj (Prod.mk.inj (Prod.mk.inj hc).2).2).2.trans hqf⟩

/-- `setup_index` on a table with a last row: it is found, and its term is loaded or the one that
is cached is right. -/
theorem coherent_setupIndex {l : LogDB} {r : LogRow} {m : ℕ} {b : Backend}
    (hm : l.maxIndex (fun _ => true) = some m) (hr : l.lookup m = some r)
    (hterm : r.term = l.lastTerm ∨ (l.maxIndex LogRow.applied).isSome)
    (hread : (l.lookup (if m = 0 then 0 else pred64 m)).isSome ∨
      (b.unfilled = [] ∧ r.term = l.lastTerm)) :
    (l.setupIndex b).1.Coherent := by
  have hmax := (maxIndex_spec hm).2
  have hcoh : ∀ a t, r.term = t →
      (⟨l.table, m + 1, a, m, t, LogDB.federated l.table, l.logRetention, l.limitPurge,
        l.limit⟩ : LogDB).Coherent := by
    intro a t ht
    exact Coherent.of_last (r := r) hr (fun q hq => hmax q hq rfl) rfl ht
      (fun f => mem_federated)
  unfold LogDB.setupIndex
  simp only [hm]
  cases ha : l.maxIndex LogRow.applied with
  | none =>
    rw [ha] at hterm
    exact hcoh l.lastApplied l.lastTerm (hterm.resolve_right (by simp))
  | some a =>
    dsimp only
    have hcases := getLogRecord_last (l := ⟨l.table, m + 1, a, m, l.lastTerm, l.fedLog,
      l.logRetention, l.limitPurge, l.limit⟩) hr hread
    rcases hcases with ⟨lr, hg, hlr⟩ | ⟨hg, -, hsame⟩
    · rw [hg]
      exact hcoh a lr.term hlr
    · rw [hg]
      exact hcoh a l.lastTerm hsame

theorem Coherent.setupIndex {l : LogDB} (h : l.Coherent) {b : Backend} (hf : l.Finds b l.lastIndex) :
    (l.setupIndex b).1.Coherent := by
  obtain ⟨r, hr, ht⟩ := h.exists_last
  refine coherent_setupIndex h.greatest hr (Or.inl ht) ?_
  rcases hf with hb | hs
  · exact Or.inr ⟨hb, ht⟩
  · rw [isSome_selectRecord, Bool.and_eq_true] at hs
    exact Or.inl hs.2

/-- What a `DELETE` of `purge_log` removes: applied rows of its kind below the minimum that it is
given. -/
theorem purgeRows_filter (l : LogDB) (p : LogRow → Bool) (min : Option ℕ) :
    ∃ keep : LogRow → Bool, (l.purgeRows p min).1 = { l with table := l.table.filter keep } ∧
      ∀ r, keep r = false → r ∈ l.table ∧ r.applied = true ∧ p r = true ∧
        ∃ m, min = some m ∧ r.index < m := by
  cases min with
  | none => exact ⟨fun _ => true, by rw [purgeRows, List.filter_true], fun r hr => by simp at hr⟩
  | some m =>
    unfold purgeRows
    dsimp only
    refine ⟨fun r => r ∉ (if l.limit then
      (l.table.filter (fun r => r.applied && p r && decide (r.index < m))).take l.limitPurge
      else l.table.filter (fun r => r.applied && p r && decide (r.index < m))), rfl, ?_⟩
    intro r hr
    rw [decide_eq_false_iff_not, not_not] at hr
    have hmem : r ∈ l.table.filter (fun r => r.applied && p r && decide (r.index < m)) := by
      split at hr
      · exact List.mem_of_mem_take hr
      · exact hr
    obtain ⟨hin, hp⟩ := List.mem_filter.mp hmem
    rw [Bool.and_eq_true, Bool.and_eq_true, decide_eq_true_eq] at hp
    exact ⟨hin, hp.1.1, hp.1.2, m, rfl, hp.2⟩

/-- A row that no filter removes is found as before. -/
theorem lookup_filter {l : LogDB} {keep : LogRow → Bool} {i : ℕ}
    (hkeep : ∀ r ∈ l.table, r.index = i → keep r = true) :
    ({ l with table := l.table.filter keep } : LogDB).lookup i = l.lookup i := by
  unfold lookup
  rw [List.find?_filter]
  refine List.find?_congr ?_
  intro r hr
  by_cases hi : r.index = i
  · rw [hkeep r hr hi]
    simp [hi]
  · simp [hi]

/-- What a `DELETE` of `purge_log` leaves: all the rows of the other kind, and all those from an
index on that is at least the minimum it is given. -/
theorem purgeRows_spec (l : LogDB) (p : LogRow → Bool) {min : Option ℕ} {k : ℕ}
    (hk : ∀ m, min = some m → m ≤ k) :
    ∃ t, (l.purgeRows p min).1 = { l with table := t } ∧ (∀ r ∈ t, r ∈ l.table) ∧
      (∀ r ∈ l.table, p r = false → r ∈ t) ∧
      ({ l with table := t } : LogDB).lookup k = l.lookup k := by
  obtain ⟨keep, heq, hdel⟩ := l.purgeRows_filter p min
  refine ⟨l.table.filter keep, heq, fun r hr => (List.mem_filter.mp hr).1, ?_, lookup_filter ?_⟩
  · intro r hr hp
    refine List.mem_filter.mpr ⟨hr, ?_⟩
    by_contra hk'
    have hp' := (hdel r (by simpa using hk')).2.2.1
    rw [hp] at hp'
    exact absurd hp' (by simp)
  · intro r _ hi
    by_contra hk'
    obtain ⟨-, -, -, m, hm, hlt⟩ := hdel r (by simpa using hk')
    have := hk m hm
    omega

theorem minRetained_le {l : LogDB} (h : l.Coherent) {p : LogRow → Bool} {m : ℕ}
    (hm : l.minRetained p = some m) : m ≤ l.lastIndex := by
  unfold minRetained at hm
  have hmem := List.mem_of_mem_take (List.min?_mem hm)
  rw [List.mem_mergeSort, List.mem_map] at hmem
  obtain ⟨r, hr, rfl⟩ := hmem
  exact h.le (List.mem_filter.mp hr).1

/-- The rows that `purge_log` deletes are before the last one, so only the federated indexes
matter. -/
theorem Coherent.purgeTable {l : LogDB} (h : l.Coherent) {t : List LogRow} {fed : Finset ℕ}
    (hsub : ∀ r ∈ t, r ∈ l.table)
    (hlook : ({ l with table := t } : LogDB).lookup l.lastIndex = l.lookup l.lastIndex)
    (hfed : ∀ f, f ∈ fed ↔ ∃ q ∈ t, q.fedIndex = some f) :
    ({ l with table := t, fedLog := fed } : LogDB).Coherent := by
  obtain ⟨r, hr, ht⟩ := h.exists_last
  exact Coherent.of_last (r := r) (hlook.trans hr) (fun q hq => h.le (hsub q hq)) h.next ht hfed

/-- **`purge_log`** keeps the cached values right. -/
theorem Coherent.purgeLog {l : LogDB} (h : l.Coherent) : l.purgeLog.1.Coherent := by
  unfold LogDB.purgeLog
  obtain ⟨t, hp, hsub, hkeep, hlook⟩ := l.purgeRows_spec (fun r => r.fedIndex.isNone)
    (k := l.lastIndex) (fun m hm => minRetained_le h hm)
  have h₁ : ({ l with table := t } : LogDB).Coherent := by
    refine h.purgeTable hsub hlook ?_
    intro f
    rw [h.mem_fedLog]
    constructor
    · rintro ⟨q, hq, hqf⟩
      exact ⟨q, hkeep q hq (by rw [hqf]; rfl), hqf⟩
    · rintro ⟨q, hq, hqf⟩
      exact ⟨q, hsub q hq, hqf⟩
  dsimp only
  rw [hp]
  split
  · exact h₁
  · have hmin : ∀ m, (({ l with table := t } : LogDB).minRetained (fun r => r.fedIndex.isSome)).or
        (l.minRetained (fun r => r.fedIndex.isNone)) = some m → m ≤ l.lastIndex := by
      intro m hm
      cases hfed : ({ l with table := t } : LogDB).minRetained (fun r => r.fedIndex.isSome) with
      | none =>
        rw [hfed, Option.none_or] at hm
        exact minRetained_le h hm
      | some m' =>
        rw [hfed, Option.some_or, Option.some.injEq] at hm
        rw [← hm]
        exact minRetained_le h₁ hfed
    obtain ⟨t', hp', hsub', -, hlook'⟩ :=
      ({ l with table := t } : LogDB).purgeRows_spec (fun r => r.fedIndex.isSome) hmin
    rw [hp']
    exact h₁.purgeTable hsub' hlook' (fun f => mem_federated)

/-! ## Runs -/

/-- The operations of the log. -/
inductive Op where
  | insertLogRecord (dbOk : Bool) (term : ℕ) (sql : Sql) (timestamp : ℕ) (fedIndex : Option ℕ)
  | insertLogRecordAt (dbOk : Bool) (index term : ℕ) (sql : Sql) (timestamp : ℕ)
      (fedIndex : Option ℕ) (replace : Bool)
  | deleteLogRecords (dbOk : Bool) (start : ℕ)
  | applyLogRecords (dbOk : Bool) (now : ℕ) (exec : ℕ → SqlError) (commit : ℕ)
  | purgeLog
  | setupIndex

/-- One operation, with what the database answers to its queries; `none` is a call that does not
return. -/
def step (l : LogDB) : Backend × Op → Option LogDB
  | (b, .insertLogRecord dbOk term sql ts fed) =>
    (l.insertLogRecord dbOk term sql ts fed b).map Prod.fst
  | (b, .insertLogRecordAt dbOk index term sql ts fed replace) =>
    (l.insertLogRecordAt dbOk index term sql ts fed replace b).map Prod.fst
  | (b, .deleteLogRecords dbOk start) => some (l.deleteLogRecords dbOk start b).1
  | (b, .applyLogRecords dbOk now exec commit) =>
    some (l.applyLogRecords dbOk now exec commit b).1
  | (_, .purgeLog) => some l.purgeLog.1
  | (b, .setupIndex) => some (l.setupIndex b).1

/-- The operations after which the cached values are right. -/
def CacheOk (l : LogDB) : Backend × Op → Prop
  | (_, .insertLogRecordAt true index term _ _ fed true) =>
    (∀ r ∈ l.lookup index, index = l.lastIndex → r.term = term) ∧
      ∀ r ∈ l.table, r.index = index → ∀ f ∈ r.fedIndex,
        fed = some f ∨ ∃ q ∈ l.table, q.index ≠ index ∧ q.fedIndex = some f
  | (b, .insertLogRecordAt dbOk index _ _ _ _ _) =>
    dbOk = true ∨ index ≤ l.lastIndex ∨ l.Finds b index
  | (b, .insertLogRecord dbOk _ _ _ _) => dbOk = true ∨ l.Finds b l.nextIndex
  | (b, .deleteLogRecords true start) =>
    0 < start ∧
      (∃ r ∈ l.lookup (start - 1), start = 1 ∨ (l.lookup (start - 2)).isSome = true ∨
        (b.unfilled = [] ∧ r.term = l.lastTerm)) ∧
      ∀ r ∈ l.table, start ≤ r.index → ∀ f ∈ r.fedIndex,
        ∃ q ∈ l.table, q.index < start ∧ q.fedIndex = some f
  | (b, .setupIndex) => l.Finds b l.lastIndex
  | _ => True

instance (l : LogDB) (e : Backend × Op) : Decidable (l.CacheOk e) := by
  unfold CacheOk
  split <;> infer_instance

/-- **One operation** keeps the cached values right. -/
theorem Coherent.step {l l' : LogDB} {e : Backend × Op} (h : l.Coherent) (hok : l.CacheOk e)
    (hstep : l.step e = some l') : l'.Coherent := by
  obtain ⟨b, op⟩ := e
  cases op with
  | insertLogRecord dbOk term sql ts fed =>
    obtain ⟨⟨l₁, o⟩, hins, rfl⟩ := Option.map_eq_some_iff.mp hstep
    exact h.insertLogRecord hok hins
  | insertLogRecordAt dbOk index term sql ts fed replace =>
    obtain ⟨⟨l₁, ok⟩, hins, rfl⟩ := Option.map_eq_some_iff.mp hstep
    cases dbOk with
    | false =>
      -- a statement that is not executed replaces nothing
      have hsame : l.insertLogRecordAt false index term sql ts fed replace b =
          l.insertLogRecordAt false index term sql ts fed false b := by cases replace <;> rfl
      rw [hsame] at hins
      exact h.insertLogRecordAt (by cases replace <;> exact hok) hins (by simp) (by simp)
    | true =>
      cases replace with
      | false => exact h.insertLogRecordAt (Or.inl rfl) hins (by simp) (by simp)
      | true => exact h.insertLogRecordAt (Or.inl rfl) hins (fun _ => hok.1) (fun _ => hok.2)
  | deleteLogRecords dbOk start =>
    rw [← Option.some.inj hstep]
    cases dbOk with
    | false => exact h.deleteLogRecords (by simp) (by simp) (by simp)
    | true => exact h.deleteLogRecords (fun _ => hok.1) (fun _ => hok.2.1) (fun _ => hok.2.2)
  | applyLogRecords dbOk now exec commit =>
    rw [← Option.some.inj hstep]
    exact h.marks (l.applyLogRecords_marks dbOk now exec commit b)
  | purgeLog =>
    rw [← Option.some.inj hstep]
    exact h.purgeLog
  | setupIndex =>
    rw [← Option.some.inj hstep]
    exact h.setupIndex hok

/-- The table that the constructor leaves: the record `0` is written if it is missing. -/
def bootTable (t : List LogRow) (now : ℕ) (text : Sql) : List LogRow :=
  if t.any (fun r => r.index = 0) then t else t ++ [⟨0, 0, text, now, none, now != 0⟩]

/-- The tables on which the constructor loads the right values: some record is applied, and the
record before the last one is there. -/
def StartOk (t : List LogRow) : Prop :=
  (∃ r ∈ t, r.applied = true) ∧
    ∀ m, (∀ r ∈ t, r.index ≤ m) → (∃ r ∈ t, r.index = m) → m = 0 ∨ ∃ r ∈ t, r.index = m - 1

/-- The constructor is `setup_index` on its table. -/
theorem construct_eq (t : List LogRow) (retention purge : ℕ) (limit : Bool) (now : ℕ)
    (text : Sql) :
    ∃ l : LogDB, l.table = bootTable t now text ∧
      construct t retention purge limit now text = l.setupIndex.1 := by
  cases hz : t.find? (fun r => r.index = 0) with
  | some r =>
    refine ⟨⟨t, 0, uint64Max, uint64Max, 2 ^ 32 - 1, ∅, retention, purge, limit⟩, ?_, ?_⟩
    · have hmem := List.mem_of_find?_eq_some hz
      have hidx := List.find?_some hz
      rw [bootTable, if_pos (List.any_eq_true.mpr ⟨r, hmem, hidx⟩)]
    · unfold LogDB.construct getLogRecord selectRecord lookup
      simp only [hz, if_true, Option.some_or]
  | none =>
    refine ⟨⟨t ++ [⟨0, 0, text, now, none, now != 0⟩], 0, uint64Max, uint64Max, 2 ^ 32 - 1, ∅,
      retention, purge, limit⟩, ?_, ?_⟩
    · have hany : t.any (fun r => decide (r.index = 0)) = false := by
        rw [List.any_eq_false]
        exact List.find?_eq_none.mp hz
      rw [bootTable, hany]
      rfl
    · have hfilter : t.filter (fun r => decide (r.index ≠ 0)) = t := by
        rw [List.filter_eq_self]
        intro r hr
        have hne := List.find?_eq_none.mp hz r hr
        simpa using hne
      unfold LogDB.construct getLogRecord selectRecord LogDB.insertLogRecordAt LogDB.insert lookup
      simp only [hz, Option.none_or, List.head?_nil, Option.map_none, Option.isNone_none, Bool.or_true, Bool.and_self, if_true, hfilter,
        Nat.not_lt_zero, if_false]

theorem coherent_construct {t : List LogRow} {now : ℕ} {text : Sql}
    (h : StartOk (bootTable t now text)) (retention purge : ℕ) (limit : Bool) :
    (construct t retention purge limit now text).Coherent := by
  obtain ⟨l, ht, hl⟩ := construct_eq t retention purge limit now text
  rw [hl]
  rw [← ht] at h
  obtain ⟨⟨q, hq, happ⟩, hprev⟩ := h
  obtain ⟨m, hm⟩ := exists_maxIndex (p := fun _ => true) hq rfl
  obtain ⟨a, ha⟩ := exists_maxIndex (p := LogRow.applied) hq happ
  obtain ⟨⟨r, hr, -, rfl⟩, hmax⟩ := maxIndex_spec hm
  obtain ⟨last, hlast⟩ := Option.isSome_iff_exists.mp (lookup_isSome_of_mem hr)
  refine coherent_setupIndex hm hlast (Or.inr (by rw [ha]; rfl)) (Or.inl ?_)
  split
  · rename_i hzero
    rw [← hzero, hlast]
    rfl
  · rename_i hzero
    obtain ⟨p, hp, hpi⟩ :=
      (hprev r.index (fun q hq => hmax q hq rfl) ⟨r, hr, rfl⟩).resolve_left hzero
    rw [pred64, if_neg hzero, ← hpi]
    exact lookup_isSome_of_mem hp

/-- **Coherence of the cached values.**  From a constructor that finds what it needs, in every run
whose operations meet `CacheOk`, the cached values agree with the table. -/
theorem coherent_of_cacheOk {t : List LogRow} {retention purge now : ℕ} {limit : Bool} {text : Sql}
    (hstart : StartOk (bootTable t now text)) {l : LogDB}
    (hrun : Reach LogDB.step CacheOk (construct t retention purge limit now text) l) :
    l.Coherent :=
  hrun.inv (coherent_construct hstart retention purge limit)
    (fun _ _ _ hl hok hstep => hl.step hok hstep)

/-- A leader's append, a record received at index 2, the application of both, a deletion of the
second record, a purge and a reload. -/
def coherentRun : List (Backend × Op) :=
  [({}, .insertLogRecord true 1 ['X'] 0 (some 0)),
    ({}, .insertLogRecordAt true 2 1 ['Y'] 0 none false),
    ({}, .applyLogRecords true 7 (fun _ => .success) 2), ({}, .deleteLogRecords true 2),
    ({}, .insertLogRecordAt true 1 1 ['Z'] 0 (some 1) true), ({}, .purgeLog), ({}, .setupIndex)]

theorem coherent_coherentRun :
    ∃ l, Reach LogDB.step CacheOk (construct [] 1 100000 true 1 ['0']) l ∧
      l.entry 1 = some (1, ['Z']) ∧ l.Coherent := by
  have hrun : ((runChecked LogDB.step CacheOk (construct [] 1 100000 true 1 ['0'])
      coherentRun).map (fun l => l.entry 1)) = some (some (1, ['Z'])) := by
    decide +kernel
  obtain ⟨l, hl, hentry⟩ := Option.map_eq_some_iff.mp hrun
  have hreach := reach_of_runChecked _ hl
  have hstart : StartOk (bootTable [] 1 ['0']) := by
    constructor
    · exact ⟨⟨0, 0, ['0'], 1, none, true⟩, by decide, rfl⟩
    · rintro m - ⟨r, hr, rfl⟩
      have hzero : ∀ r ∈ bootTable [] 1 ['0'], r.index = 0 := by decide
      exact Or.inl (hzero r hr)
  exact ⟨l, hreach, hentry, coherent_of_cacheOk hstart hreach⟩

/-- A federated record is deleted, and its index stays in the set of federated indexes. -/
theorem incoherent_after_deleteLogRecords :
    ¬ ∀ l, Run LogDB.step (construct [] 250000 100000 true 1 ['0']) l → l.Coherent := by
  intro h
  have hrun : ((runEvents LogDB.step (construct [] 250000 100000 true 1 ['0'])
      [({}, .insertLogRecord true 1 ['X'] 0 (some 0)), ({}, .deleteLogRecords true 1)]).map
        (fun l => (decide (1 ∈ l.fedLog), decide (1 ∈ federated l.table)))) =
      some (true, false) := by decide
  obtain ⟨l, hl, heq⟩ := Option.map_eq_some_iff.mp hrun
  obtain ⟨hin, hout⟩ := Prod.mk.inj heq
  have hcoh := h l (reach_of_runEvents (P := fun _ => True) _ (fun _ _ => trivial) hl)
  rw [hcoh.federated, hout] at hin
  exact absurd hin (by decide)

end LogDB
