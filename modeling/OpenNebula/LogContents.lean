/-
# What the log database contains

The log of a server as a list of entries (term and SQL command), and what each operation of
`LogDB` does to it.  `Holds l boot L` says that the table has the record `0`, with the
command `boot`, and above it exactly the records of `L` without a gap, and that the cached
values agree with it.  The theorems about the zone never look into the table: they use the
lemmas of this file, one for each operation.
-/
import OpenNebula.LogDB
import OpenNebula.LeaderCompleteness

open ReplicatedLog

namespace LogDB

/-- The log from the index `1` on. -/
def log (l : LogDB) : List (Entry Sql) :=
  (List.range l.lastIndex).filterMap (fun i => l.entry (i + 1))

/-- The table holds the record `0` and the records `L` above it, and the cached values agree
with it. -/
structure Holds (l : LogDB) (boot : Sql) (L : List (Entry Sql)) : Prop where
  zero : ∃ r, l.lookup 0 = some r ∧ r.term = 0 ∧ r.sql = boot ∧ r.applied = true
  succ : ∀ i, l.entry (i + 1) = L[i]?
  last : l.lastIndex = L.length
  next : l.nextIndex = L.length + 1
  term : l.lastTerm = ReplicatedLog.lastTerm L

/-- The indexes marked as applied, and the cached one, are all in `A`. -/
structure AppliedIn (l : LogDB) (A : ℕ → Prop) : Prop where
  rows : ∀ r ∈ l.table, r.applied = true → A r.index
  last : A l.lastApplied

/-! ## Rows -/

theorem lookup_some {l : LogDB} {i : ℕ} {r : LogRow} (h : l.lookup i = some r) :
    r ∈ l.table ∧ r.index = i := by
  have hp := List.find?_some h
  exact ⟨List.mem_of_find?_eq_some h, by simpa using hp⟩

theorem lookup_isSome_of_mem {l : LogDB} {r : LogRow} (h : r ∈ l.table) :
    (l.lookup r.index).isSome := by
  rw [lookup, List.find?_isSome]
  exact ⟨r, h, by simp⟩

theorem Holds.log_eq {l : LogDB} {boot : Sql} {L : List (Entry Sql)} (h : l.Holds boot L) :
    l.log = L := by
  unfold log
  rw [h.last]
  have hfun : (fun i => l.entry (i + 1)) = (fun i => L[i]?) := funext h.succ
  rw [hfun]
  clear hfun h
  induction L using List.reverseRecOn with
  | nil => rfl
  | append_singleton L e ih =>
    rw [List.length_append, List.length_singleton, List.range_succ, List.filterMap_append]
    congr 1
    · refine (List.filterMap_congr ?_).trans ih
      intro i hi
      rw [List.getElem?_append_left (List.mem_range.mp hi)]
    · simp

theorem Holds.index_le {l : LogDB} {boot : Sql} {L : List (Entry Sql)} (h : l.Holds boot L)
    {r : LogRow} (hr : r ∈ l.table) : r.index ≤ L.length := by
  have hsome := lookup_isSome_of_mem hr
  rcases Nat.eq_zero_or_pos r.index with h0 | hpos
  · omega
  · obtain ⟨k, hk⟩ := Nat.exists_eq_succ_of_ne_zero hpos.ne'
    have hentry := h.succ k
    rw [entry, ← Nat.succ_eq_add_one, ← hk] at hentry
    obtain ⟨r', hr'⟩ := Option.isSome_iff_exists.mp hsome
    rw [hr', Option.map_some] at hentry
    have := (List.getElem?_eq_some_iff.mp hentry.symm).1
    omega

/-- The row at an index that the log reaches. -/
theorem Holds.lookup_of_le {l : LogDB} {boot : Sql} {L : List (Entry Sql)} (h : l.Holds boot L)
    {i : ℕ} (hi : i ≤ L.length) :
    ∃ r, l.lookup i = some r ∧ r.index = i ∧ r.term = termAt L i ∧
      (0 < i → L[i - 1]? = some (r.term, r.sql)) := by
  cases i with
  | zero =>
    obtain ⟨r, hr, ht, -⟩ := h.zero
    exact ⟨r, hr, (lookup_some hr).2, ht, fun h0 => absurd h0 (by omega)⟩
  | succ i =>
    have hentry := h.succ i
    have hLi : L[i]? = some L[i] := List.getElem?_eq_getElem (by omega)
    rw [hLi, entry, Option.map_eq_some_iff] at hentry
    obtain ⟨r, hr, he⟩ := hentry
    refine ⟨r, hr, (lookup_some hr).2, ?_, fun _ => ?_⟩
    · rw [termAt_succ hLi, ← he]
    · rw [Nat.succ_sub_one, hLi, he]

theorem Holds.lookup_eq_none {l : LogDB} {boot : Sql} {L : List (Entry Sql)}
    (h : l.Holds boot L) {i : ℕ} : l.lookup i = none ↔ L.length < i := by
  constructor
  · intro hnone
    by_contra hle
    obtain ⟨r, hr, -⟩ := h.lookup_of_le (Nat.le_of_not_lt hle)
    rw [hr] at hnone
    exact absurd hnone (by simp)
  · intro hlt
    obtain ⟨k, rfl⟩ := Nat.exists_eq_succ_of_ne_zero (show i ≠ 0 by omega)
    have hentry := h.succ k
    rw [List.getElem?_eq_none (by omega), entry, Option.map_eq_none_iff] at hentry
    exact hentry

/-! ## Reading a record -/

/-- The query for the record `i` finds it, or returns `-1`. -/
def Finds (l : LogDB) (b : Backend) (i : ℕ) : Prop :=
  b.unfilled = [] ∨ (l.selectRecord i (pred64 i) b).isSome

instance (l : LogDB) (b : Backend) (i : ℕ) : Decidable (l.Finds b i) :=
  inferInstanceAs (Decidable (_ ∨ _))

theorem Finds.getLogRecord {l : LogDB} {b : Backend} {i : ℕ} (h : l.Finds b i) :
    l.getLogRecord i (pred64 i) b = l.selectRecord i (pred64 i) b := by
  unfold LogDB.getLogRecord
  rcases h with hb | hs
  · rw [hb, List.head?_nil, Option.map_none, Option.or_none]
  · obtain ⟨lr, hlr⟩ := Option.isSome_iff_exists.mp hs
    rw [hlr, Option.some_or]

/-- What the query of `get_log_record` returns. -/
theorem Holds.selectRecord_some {l : LogDB} {boot : Sql} {L : List (Entry Sql)}
    (h : l.Holds boot L) {b : Backend} {i : ℕ} {lr : LogDBRecord}
    (hg : l.selectRecord i (pred64 i) b = some lr) :
    lr.index = i ∧ i ≤ L.length ∧ lr.prevIndex = i - 1 ∧ lr.term = termAt L i ∧
      lr.prevTerm = termAt L (i - 1) ∧ (0 < i → L[i - 1]? = some (lr.term, lr.sql)) := by
  have hprev : (if i = 0 then 0 else pred64 i) = i - 1 := by
    unfold pred64
    split <;> omega
  unfold selectRecord at hg
  rw [hprev] at hg
  have hle : i ≤ L.length := by
    by_contra hlt
    rw [h.lookup_eq_none.mpr (by omega)] at hg
    simp at hg
  obtain ⟨r, hr, hri, hrt, hre⟩ := h.lookup_of_le hle
  obtain ⟨q, hq, hqi, hqt, -⟩ := h.lookup_of_le (show i - 1 ≤ L.length by omega)
  rw [hr, hq] at hg
  simp only [Option.some.injEq] at hg
  subst hg
  exact ⟨hri, hle, hqi, hrt, hqt, hre⟩

theorem Holds.selectRecord_none {l : LogDB} {boot : Sql} {L : List (Entry Sql)}
    (h : l.Holds boot L) {b : Backend} {i : ℕ} :
    l.selectRecord i (pred64 i) b = none ↔ L.length < i := by
  constructor
  · intro hg
    by_contra hle
    obtain ⟨r, hr, -⟩ := h.lookup_of_le (show i ≤ L.length by omega)
    obtain ⟨q, hq, -⟩ := h.lookup_of_le (show i - 1 ≤ L.length by omega)
    have hprev : (if i = 0 then 0 else pred64 i) = i - 1 := by
      unfold pred64
      split <;> omega
    rw [selectRecord, hprev, hr, hq] at hg
    simp at hg
  · intro hlt
    unfold selectRecord
    rw [h.lookup_eq_none.mpr hlt]

theorem Holds.finds {l : LogDB} {boot : Sql} {L : List (Entry Sql)} (h : l.Holds boot L)
    (b : Backend) {i : ℕ} (hi : i ≤ L.length) : l.Finds b i := by
  refine Or.inr (Option.isSome_iff_ne_none.mpr fun hnone => ?_)
  have := h.selectRecord_none.mp hnone
  omega

/-- What `get_log_record` returns. -/
theorem Holds.getLogRecord_some {l : LogDB} {boot : Sql} {L : List (Entry Sql)}
    (h : l.Holds boot L) {b : Backend} {i : ℕ} {lr : LogDBRecord} (hf : l.Finds b i)
    (hg : l.getLogRecord i (pred64 i) b = some lr) :
    lr.index = i ∧ i ≤ L.length ∧ lr.prevIndex = i - 1 ∧ lr.term = termAt L i ∧
      lr.prevTerm = termAt L (i - 1) ∧ (0 < i → L[i - 1]? = some (lr.term, lr.sql)) :=
  h.selectRecord_some (hf.getLogRecord ▸ hg)

theorem Holds.lt_of_getLogRecord_none {l : LogDB} {boot : Sql} {L : List (Entry Sql)}
    (h : l.Holds boot L) {b : Backend} {i : ℕ} (hg : l.getLogRecord i (pred64 i) b = none) :
    L.length < i :=
  h.selectRecord_none.mp (Option.or_eq_none_iff.mp hg).1

/-- A record that the log reaches is read from every database. -/
theorem Holds.exists_getLogRecord {l : LogDB} {boot : Sql} {L : List (Entry Sql)}
    (h : l.Holds boot L) (b : Backend) {i : ℕ} (hi : i ≤ L.length) :
    ∃ lr, l.getLogRecord i (pred64 i) b = some lr ∧ lr.term = termAt L i := by
  cases hg : l.getLogRecord i (pred64 i) b with
  | none => exact absurd (h.lt_of_getLogRecord_none hg) (by omega)
  | some lr => exact ⟨lr, rfl, (h.getLogRecord_some (h.finds b hi) hg).2.2.2.1⟩

/-! ## `setup_index` and the constructor -/

theorem maxIndex_spec {l : LogDB} {p : LogRow → Bool} {m : ℕ} (h : l.maxIndex p = some m) :
    (∃ r ∈ l.table, p r = true ∧ r.index = m) ∧ ∀ r ∈ l.table, p r = true → r.index ≤ m := by
  rw [maxIndex, List.max?_eq_some_iff] at h
  constructor
  · obtain ⟨r, hr, hm⟩ := List.mem_map.mp h.1
    exact ⟨r, (List.mem_filter.mp hr).1, (List.mem_filter.mp hr).2, hm⟩
  · intro r hr hp
    exact h.2 _ (List.mem_map.mpr ⟨r, List.mem_filter.mpr ⟨hr, hp⟩, rfl⟩)

theorem exists_maxIndex {l : LogDB} {p : LogRow → Bool} {r : LogRow} (hr : r ∈ l.table)
    (hp : p r = true) : ∃ m, l.maxIndex p = some m := by
  rw [maxIndex, ← Option.isSome_iff_exists, List.isSome_max?_iff]
  intro hnil
  rw [List.map_eq_nil_iff, List.filter_eq_nil_iff] at hnil
  exact hnil r hr hp

/-- The part of `Holds` that only depends on the table. -/
structure Rows (t : List LogRow) (boot : Sql) (L : List (Entry Sql)) : Prop where
  zero : ∃ r, t.find? (fun r => r.index = 0) = some r ∧ r.term = 0 ∧ r.sql = boot ∧
    r.applied = true
  succ : ∀ i, (t.find? (fun r => r.index = i + 1)).map (fun r => (r.term, r.sql)) = L[i]?

theorem Holds.rows {l : LogDB} {boot : Sql} {L : List (Entry Sql)} (h : l.Holds boot L) :
    Rows l.table boot L := ⟨h.zero, h.succ⟩

/-- The cached values that agree with a table. -/
def withCache (l : LogDB) (L : List (Entry Sql)) : LogDB :=
  { l with nextIndex := L.length + 1, lastIndex := L.length, lastTerm := ReplicatedLog.lastTerm L }

theorem Rows.holds {l : LogDB} {boot : Sql} {L : List (Entry Sql)} (h : Rows l.table boot L) :
    (l.withCache L).Holds boot L :=
  ⟨h.zero, h.succ, rfl, rfl, rfl⟩

/-- `setup_index` on a table that holds `L`. -/
theorem Rows.setupIndex {l : LogDB} {boot : Sql} {L : List (Entry Sql)}
    (h : Rows l.table boot L) (b : Backend) :
    (l.setupIndex b).1.Holds boot L ∧ (l.setupIndex b).1.table = l.table ∧
      (l.setupIndex b).1.lastApplied = (l.setupIndex b).2.1 ∧ (l.setupIndex b).2.2 = L.length ∧
      ∃ r ∈ l.table, r.applied = true ∧ r.index = (l.setupIndex b).2.1 := by
  have hh := h.holds
  obtain ⟨r₀, hr₀, -, -, happ⟩ := h.zero
  have hmem : r₀ ∈ l.table := List.mem_of_find?_eq_some hr₀
  obtain ⟨m, hm⟩ := exists_maxIndex (p := fun _ => true) hmem rfl
  obtain ⟨a, ha⟩ := exists_maxIndex (p := LogRow.applied) hmem happ
  obtain ⟨⟨r, hr, -, hrm⟩, hmax⟩ := maxIndex_spec hm
  have hmL : m = L.length := by
    have h1 : r.index ≤ L.length := hh.index_le hr
    obtain ⟨q, hq, hqi, -⟩ := hh.lookup_of_le le_rfl
    have h2 := hmax q (lookup_some hq).1 rfl
    omega
  subst hmL
  obtain ⟨lr, hlr, hterm⟩ := hh.exists_getLogRecord b le_rfl
  have hlr' : (⟨l.table, L.length + 1, a, L.length, l.lastTerm, l.fedLog, l.logRetention,
      l.limitPurge, l.limit⟩ : LogDB).getLogRecord L.length (pred64 L.length) b = some lr := hlr
  unfold LogDB.setupIndex
  simp only [hm, ha, hlr', Option.getD_some, true_and]
  refine ⟨⟨h.zero, h.succ, rfl, rfl, ?_⟩, ?_⟩
  · show lr.term = _
    rw [hterm, lastTerm_eq_termAt]
  · obtain ⟨⟨q, hq, hqa, hqi⟩, -⟩ := maxIndex_spec ha
    exact ⟨q, hq, hqa, hqi⟩

theorem AppliedIn.setupIndex {l : LogDB} {A : ℕ → Prop} {boot : Sql} {L : List (Entry Sql)}
    (h : Rows l.table boot L) (ha : ∀ r ∈ l.table, r.applied = true → A r.index) (b : Backend) :
    (l.setupIndex b).1.AppliedIn A ∧ A (l.setupIndex b).2.1 := by
  obtain ⟨-, htable, hlast, -, r, hr, happ, hri⟩ := h.setupIndex b
  have hA : A (l.setupIndex b).2.1 := hri ▸ ha r hr happ
  refine ⟨⟨?_, ?_⟩, hA⟩
  · rw [htable]
    exact ha
  · rw [hlast]
    exact hA

/-- The constructor finds the record `0` and reloads the cached values. -/
theorem Rows.construct {t : List LogRow} {boot : Sql} {L : List (Entry Sql)} (h : Rows t boot L)
    (retention purge : ℕ) (limit : Bool) (now : ℕ) (text : Sql) :
    ∃ l : LogDB, l.table = t ∧ LogDB.construct t retention purge limit now text = l.setupIndex.1 := by
  obtain ⟨r, hr, -⟩ := h.zero
  refine ⟨⟨t, 0, uint64Max, uint64Max, 2 ^ 32 - 1, ∅, retention, purge, limit⟩, rfl, ?_⟩
  unfold LogDB.construct getLogRecord selectRecord lookup
  simp only [hr, if_true, Option.some_or]

theorem Rows.construct_holds {t : List LogRow} {boot : Sql} {L : List (Entry Sql)}
    (h : Rows t boot L) (retention purge : ℕ) (limit : Bool) (now : ℕ) (text : Sql) :
    (LogDB.construct t retention purge limit now text).Holds boot L := by
  obtain ⟨l, rfl, hl⟩ := h.construct retention purge limit now text
  rw [hl]
  exact (h.setupIndex {}).1

theorem Rows.construct_appliedIn {t : List LogRow} {boot : Sql} {L : List (Entry Sql)}
    {A : ℕ → Prop} (h : Rows t boot L) (ha : ∀ r ∈ t, r.applied = true → A r.index)
    (retention purge : ℕ) (limit : Bool) (now : ℕ) (text : Sql) :
    (LogDB.construct t retention purge limit now text).AppliedIn A := by
  obtain ⟨l, rfl, hl⟩ := h.construct retention purge limit now text
  rw [hl]
  exact (AppliedIn.setupIndex h ha {}).1

/-- The constructor on an empty table writes the record `0`. -/
theorem construct_nil (retention purge : ℕ) (limit : Bool) {now : ℕ} (hnow : now ≠ 0)
    (text : Sql) :
    (LogDB.construct [] retention purge limit now text).Holds text [] ∧
      (LogDB.construct [] retention purge limit now text).AppliedIn (· = 0) := by
  have hrow : Rows [⟨0, 0, text, now, none, now != 0⟩] text [] :=
    ⟨⟨_, rfl, rfl, rfl, by simpa using hnow⟩, fun i => by simp⟩
  have happ : ∀ r ∈ [(⟨0, 0, text, now, none, now != 0⟩ : LogRow)],
      r.applied = true → r.index = 0 := by
    simp
  constructor
  · exact (hrow.setupIndex {}).1
  · exact (AppliedIn.setupIndex hrow happ {}).1

/-! ## Insertion and deletion -/

theorem lookup_insertRow {l l' : LogDB} {row : LogRow}
    (ht : l'.table = l.table.filter (fun r => r.index ≠ row.index) ++ [row]) (i : ℕ) :
    l'.lookup i = if i = row.index then some row else l.lookup i := by
  unfold lookup
  rw [ht, List.find?_append, List.find?_filter]
  by_cases hi : i = row.index
  · subst hi
    rw [if_pos rfl, List.find?_eq_none.mpr (by simp)]
    simp
  · rw [if_neg hi, List.find?_singleton, if_neg (by simpa using Ne.symm hi), Option.or_none]
    congr 1
    funext r
    by_cases hr : r.index = i
    · simp [hr, hi]
    · simp [hr]

theorem lookup_deleteRows {l l' : LogDB} {start : ℕ}
    (ht : l'.table = l.table.filter (fun r => r.index < start)) (i : ℕ) :
    l'.lookup i = if i < start then l.lookup i else none := by
  unfold lookup
  rw [ht, List.find?_filter]
  split
  · rename_i hlt
    congr 1
    funext r
    by_cases hr : r.index = i
    · simp [hr, hlt]
    · simp [hr]
  · rename_i hge
    rw [List.find?_eq_none]
    intro r _
    simp only [decide_eq_true_eq, not_and]
    omega

/-- A row that is not marked as applied adds nothing to the applied indexes. -/
theorem AppliedIn.insertRow {l l' : LogDB} {A : ℕ → Prop} (h : l.AppliedIn A) (row : LogRow)
    (ht : l'.table = l.table.filter (fun r => r.index ≠ row.index) ++ [row])
    (hrow : row.applied = false) (hlast : l'.lastApplied = l.lastApplied) : l'.AppliedIn A := by
  refine ⟨?_, hlast ▸ h.last⟩
  intro r hr happ
  rw [ht, List.mem_append, List.mem_singleton] at hr
  rcases hr with hr | rfl
  · exact h.rows r (List.mem_filter.mp hr).1 happ
  · rw [hrow] at happ
    exact absurd happ (by simp)

/-- A row written on top of the log. -/
theorem Holds.insertRow_top {l l' : LogDB} {boot : Sql} {L : List (Entry Sql)}
    (h : l.Holds boot L) (row : LogRow)
    (ht : l'.table = l.table.filter (fun r => r.index ≠ row.index) ++ [row])
    (hidx : row.index = L.length + 1) (hlast : l'.lastIndex = row.index)
    (hnext : l'.nextIndex = row.index + 1) (hterm : l'.lastTerm = row.term) :
    l'.Holds boot (L ++ [(row.term, row.sql)]) := by
  have hlen : (L ++ [(row.term, row.sql)]).length = L.length + 1 := by simp
  refine ⟨?_, ?_, by omega, by omega, by rw [hterm, lastTerm_concat]⟩
  · obtain ⟨r, hr, hrest⟩ := h.zero
    refine ⟨r, ?_, hrest⟩
    rw [lookup_insertRow ht, if_neg (by omega)]
    exact hr
  · intro k
    rw [entry, lookup_insertRow ht]
    rcases Nat.lt_trichotomy k L.length with hlt | heq | hgt
    · rw [if_neg (by omega), ← entry, h.succ k, List.getElem?_append_left hlt]
    · rw [if_pos (by omega), heq]
      simp
    · rw [if_neg (by omega), ← entry, h.succ k, List.getElem?_eq_none (by omega),
        List.getElem?_eq_none (by omega)]

/-- `insert` has taken its record for a duplicate. -/
structure Known (l : LogDB) (dbOk : Bool) (b : Backend) (i : ℕ) : Prop where
  row : dbOk = true → (l.lookup i).isSome
  read : (l.getLogRecord i (pred64 i) b).isSome

/-- The duplicate is there, unless the statement has failed and the query was not right. -/
theorem Known.isSome {l : LogDB} {dbOk : Bool} {b : Backend} {i : ℕ} (h : l.Known dbOk b i)
    (hf : dbOk = true ∨ l.Finds b i) : (l.lookup i).isSome := by
  rcases hf with hok | hf
  · exact h.row hok
  · have hread := h.read
    rw [hf.getLogRecord, LogDB.selectRecord] at hread
    cases hl : l.lookup i with
    | none => simp [hl] at hread
    | some r => rfl

/-- What the leader's append does: nothing, a new row at the next index, or, for a record that is
not federated, only the cached values when the row is there already. -/
theorem insertLogRecord_cases {l l' : LogDB} {dbOk : Bool} {term ts : ℕ} {sql : Sql}
    {fed o : Option ℕ} {b : Backend}
    (h : l.insertLogRecord dbOk term sql ts fed b = some (l', o)) :
    (o = none ∧ l' = l ∧ fed = none) ∨
      (o = some l.nextIndex ∧ l'.nextIndex = l.nextIndex + 1 ∧ l'.lastIndex = l.nextIndex ∧
        l'.lastTerm = term ∧ l'.lastApplied = l.lastApplied ∧
        ((l.lookup l.nextIndex = none ∧
            l'.fedLog = (match (if fed = some 0 then some l.nextIndex else fed) with
              | some f => Insert.insert f l.fedLog
              | none => l.fedLog) ∧
            ∃ row : LogRow, row.index = l.nextIndex ∧ row.term = term ∧ row.sql = sql ∧
              row.fedIndex = (if fed = some 0 then some l.nextIndex else fed) ∧
              (row.timestamp = ts ∧ row.applied = (ts != 0)) ∧
              l'.table = l.table.filter (fun r => r.index ≠ row.index) ++ [row]) ∨
          (l.Known dbOk b l.nextIndex ∧ fed = none ∧ l'.fedLog = l.fedLog ∧
            l'.table = l.table))) := by
  have hfed : (if fed = some 0 then some l.nextIndex else fed) = none → fed = none := by
    intro h0
    split at h0
    · exact absurd h0 (by simp)
    · exact h0
  unfold LogDB.insertLogRecord at h
  dsimp only at h
  split at h
  · exact absurd h (by simp)
  · rename_i l₁ hins
    simp only [Option.some.injEq, Prod.mk.injEq] at h
    refine Or.inl ⟨h.2.symm, h.1.symm, hfed ?_⟩
    unfold LogDB.insert at hins
    dsimp only at hins
    split at hins
    · exact absurd hins (by simp)
    · split at hins
      · exact absurd hins (by simp)
      · assumption
  · rename_i l₁ hins
    simp only [Option.some.injEq, Prod.mk.injEq] at h
    obtain ⟨rfl, rfl⟩ := h
    refine Or.inr ⟨rfl, rfl, rfl, rfl, ?_⟩
    unfold LogDB.insert at hins
    dsimp only at hins
    split at hins
    · rename_i hdb
      simp only [Option.some.injEq, Prod.mk.injEq, and_true] at hins
      rw [← hins]
      simp only [Bool.false_or, Bool.and_eq_true, Option.isNone_iff_eq_none] at hdb
      exact ⟨rfl, Or.inl ⟨hdb.2, rfl, ⟨l.nextIndex, term, sql, ts, _, ts != 0⟩, rfl, rfl, rfl, rfl,
        ⟨rfl, rfl⟩, rfl⟩⟩
    · rename_i hdb
      split at hins
      · exact absurd hins (by simp)
      · rename_i hnone
        obtain rfl := hfed hnone
        simp only [Option.some.injEq, Prod.mk.injEq] at hins
        obtain ⟨rfl, hrec⟩ := hins
        exact ⟨rfl, Or.inr ⟨⟨by simpa [Option.isSome_iff_ne_none] using hdb, hrec⟩, rfl, rfl, rfl⟩⟩

/-- What the insertion of a received record does: nothing, a row at its index, or, for a record that
is not federated, only the cached values when the row is there already. -/
theorem insertLogRecordAt_cases {l l' : LogDB} {dbOk replace ok : Bool} {index term ts : ℕ}
    {sql : Sql} {fed : Option ℕ} {b : Backend}
    (h : l.insertLogRecordAt dbOk index term sql ts fed replace b = some (l', ok)) :
    (ok = false ∧ l' = l) ∨
      (ok = true ∧ l'.lastApplied = l.lastApplied ∧
        l'.lastIndex = (if l.lastIndex < index then index else l.lastIndex) ∧
        l'.lastTerm = (if l.lastIndex < index then term else l.lastTerm) ∧
        l'.nextIndex = (if l.lastIndex < index then index + 1 else l.nextIndex) ∧
        ((l'.fedLog = fed.elim l.fedLog (fun f => Insert.insert f l.fedLog) ∧
            (replace = true ∨ l.lookup index = none) ∧
            ∃ row : LogRow, row.index = index ∧ row.term = term ∧ row.sql = sql ∧
              row.fedIndex = fed ∧ (row.timestamp = ts ∧ row.applied = (ts != 0)) ∧
              l'.table = l.table.filter (fun r => r.index ≠ row.index) ++ [row]) ∨
          (l.Known dbOk b index ∧ fed = none ∧ l'.fedLog = l.fedLog ∧ l'.table = l.table))) := by
  unfold LogDB.insertLogRecordAt at h
  split at h
  · exact absurd h (by simp)
  · simp only [Option.some.injEq, Prod.mk.injEq] at h
    exact Or.inl ⟨h.2.symm, h.1.symm⟩
  · rename_i l₁ hins
    simp only [Option.some.injEq, Prod.mk.injEq] at h
    obtain ⟨rfl, rfl⟩ := h
    refine Or.inr ⟨rfl, ?_⟩
    unfold LogDB.insert at hins
    dsimp only at hins
    split at hins
    · rename_i hdb
      simp only [Option.some.injEq, Prod.mk.injEq, and_true] at hins
      simp only [Bool.and_eq_true, Bool.or_eq_true, Option.isNone_iff_eq_none] at hdb
      subst hins
      have hlog : (match fed with
          | some f => Insert.insert f l.fedLog
          | none => l.fedLog) = fed.elim l.fedLog (fun f => Insert.insert f l.fedLog) := by
        cases fed <;> rfl
      by_cases hlt : l.lastIndex < index
      · simp only [if_pos hlt, true_and]
        exact Or.inl ⟨hlog, hdb.2, ⟨index, term, sql, ts, fed, ts != 0⟩, rfl, rfl, rfl, rfl,
          ⟨rfl, rfl⟩, rfl⟩
      · simp only [if_neg hlt, true_and]
        exact Or.inl ⟨hlog, hdb.2, ⟨index, term, sql, ts, fed, ts != 0⟩, rfl, rfl, rfl, rfl,
          ⟨rfl, rfl⟩, rfl⟩
    · rename_i hdb
      split at hins
      · exact absurd hins (by simp)
      · simp only [Option.some.injEq, Prod.mk.injEq] at hins
        obtain ⟨rfl, hrec⟩ := hins
        have hknown : l.Known dbOk b index := ⟨by
          simp only [Bool.and_eq_true, Bool.or_eq_true, not_and, not_or] at hdb
          intro hok
          simpa [Option.isSome_iff_ne_none] using (hdb hok).2, hrec⟩
        by_cases hlt : l.lastIndex < index
        · simp only [if_pos hlt, true_and]
          exact Or.inr ⟨hknown, trivial⟩
        · simp only [if_neg hlt, true_and]
          exact Or.inr ⟨hknown, trivial⟩

/-- A row written over a record with the same term and command. -/
theorem Holds.insertRow_same {l l' : LogDB} {boot : Sql} {L : List (Entry Sql)}
    (h : l.Holds boot L) (row : LogRow)
    (ht : l'.table = l.table.filter (fun r => r.index ≠ row.index) ++ [row])
    (hpos : 0 < row.index) (hold : L[row.index - 1]? = some (row.term, row.sql))
    (hlast : l'.lastIndex = l.lastIndex) (hnext : l'.nextIndex = l.nextIndex)
    (hterm : l'.lastTerm = l.lastTerm) : l'.Holds boot L := by
  refine ⟨?_, ?_, hlast.trans h.last, hnext.trans h.next, hterm.trans h.term⟩
  · obtain ⟨r, hr, hrest⟩ := h.zero
    refine ⟨r, ?_, hrest⟩
    rw [lookup_insertRow ht, if_neg (by omega)]
    exact hr
  · intro k
    rw [entry, lookup_insertRow ht]
    split
    · rename_i hk
      rw [← hk, Nat.add_sub_cancel] at hold
      rw [hold, Option.map_some]
    · rw [← entry, h.succ k]

/-- The leader's append.  A statement that fails has to be reported. -/
theorem Holds.insertLogRecord {l l' : LogDB} {boot : Sql} {L : List (Entry Sql)}
    (h : l.Holds boot L) {dbOk : Bool} {term : ℕ} {sql : Sql} {fed : Option ℕ} {b : Backend} {i : ℕ}
    (hf : dbOk = true ∨ l.Finds b l.nextIndex)
    (hi : l.insertLogRecord dbOk term sql 0 fed b = some (l', some i)) :
    i = L.length + 1 ∧ l'.Holds boot (L ++ [(term, sql)]) ∧
      (∀ A, l.AppliedIn A → l'.AppliedIn A) := by
  have hnone : l.lookup l.nextIndex = none := h.lookup_eq_none.mpr (by rw [h.next]; omega)
  unfold LogDB.insertLogRecord LogDB.insert at hi
  simp only [hnone, Option.isNone_none, Bool.or_true, Bool.and_true] at hi
  cases dbOk with
  | false =>
    have hrec : l.getLogRecord l.nextIndex (pred64 l.nextIndex) b = none :=
      (hf.resolve_left Bool.false_ne_true).getLogRecord.trans
        (h.selectRecord_none.mpr (by rw [h.next]; omega))
    simp only [hrec, Option.isSome_none] at hi
    cases hfed : (if fed = some 0 then some l.nextIndex else fed) with
    | none => simp [hfed] at hi
    | some f => simp [hfed] at hi
  | true =>
    simp only [if_true, Option.some.injEq, Prod.mk.injEq] at hi
    obtain ⟨rfl, rfl⟩ := hi
    refine ⟨h.next, h.insertRow_top ⟨l.nextIndex, term, sql, 0, _, _⟩ rfl h.next rfl rfl
      rfl, ?_⟩
    exact fun A hA => hA.insertRow ⟨l.nextIndex, term, sql, 0, _, _⟩ rfl rfl rfl

/-- The insertion of a record received from the leader, on top of the log or over a record
with the same term and command. -/
theorem Holds.insertLogRecordAt {l l' : LogDB} {boot : Sql} {L : List (Entry Sql)}
    (h : l.Holds boot L) {dbOk : Bool} {i term : ℕ} {sql : Sql} {fed : Option ℕ} {b : Backend}
    (hf : dbOk = true ∨ l.Finds b i)
    (hi : l.insertLogRecordAt dbOk i term sql 0 fed true b = some (l', true)) (hpos : 0 < i)
    (hpre : i = L.length + 1 ∨ L[i - 1]? = some (term, sql)) :
    (if i = L.length + 1 then l'.Holds boot (L ++ [(term, sql)]) else l'.Holds boot L) ∧
      (∀ A, l.AppliedIn A → l'.AppliedIn A) := by
  unfold LogDB.insertLogRecordAt LogDB.insert at hi
  cases dbOk with
  | false =>
    cases fed with
    | some f => simp at hi
    | none =>
      cases hrec : l.getLogRecord i (pred64 i) b with
      | none => simp [hrec] at hi
      | some lr =>
        have hle := (h.getLogRecord_some (hf.resolve_left Bool.false_ne_true) hrec).2.1
        simp only [hrec, Bool.false_and, Bool.false_eq_true, if_false, Option.isSome_some,
          Option.some.injEq, Prod.mk.injEq, and_true] at hi
        rw [if_neg (by rw [h.last]; omega)] at hi
        subst hi
        rw [if_neg (by omega)]
        exact ⟨h, fun A hA => ⟨hA.rows, hA.last⟩⟩
  | true =>
    simp only [Bool.true_and, Bool.true_or, if_true, Option.some.injEq, Prod.mk.injEq,
      and_true] at hi
    rcases hpre with htop | hsame
    · rw [if_pos (by rw [h.last]; omega)] at hi
      subst hi
      rw [if_pos htop]
      exact ⟨h.insertRow_top ⟨i, term, sql, 0, fed, _⟩ rfl htop rfl rfl rfl,
        fun A hA => hA.insertRow ⟨i, term, sql, 0, fed, _⟩ rfl rfl rfl⟩
    · have hle := (List.getElem?_eq_some_iff.mp hsame).1
      rw [if_neg (by rw [h.last]; omega)] at hi
      subst hi
      rw [if_neg (by omega)]
      exact ⟨h.insertRow_same ⟨i, term, sql, 0, fed, _⟩ rfl hpos hsame rfl rfl rfl,
        fun A hA => hA.insertRow ⟨i, term, sql, 0, fed, _⟩ rfl rfl rfl⟩

/-- The deletion of the records from `start` on. -/
theorem Holds.deleteLogRecords {l : LogDB} {boot : Sql} {L : List (Entry Sql)}
    (h : l.Holds boot L) {start : ℕ} (hpos : 0 < start) (hle : start ≤ L.length + 1) (b : Backend) :
    (l.deleteLogRecords true start b).1.Holds boot (L.take (start - 1)) ∧
      (∀ A, l.AppliedIn A → (l.deleteLogRecords true start b).1.AppliedIn A) := by
  have hlen : (L.take (start - 1)).length = start - 1 := by
    rw [List.length_take]
    omega
  have hpred : pred64 start = start - 1 := if_neg (by omega)
  have hrows : Rows (l.table.filter (fun r => r.index < start)) boot (L.take (start - 1)) := by
    have hlook : ∀ i, LogDB.lookup { l with table := l.table.filter (fun r => r.index < start) } i =
        if i < start then l.lookup i else none := lookup_deleteRows rfl
    constructor
    · obtain ⟨r, hr, hrest⟩ := h.zero
      exact ⟨r, (hlook 0).trans ((if_pos hpos).trans hr), hrest⟩
    · intro i
      refine (congrArg _ (hlook (i + 1))).trans ?_
      rw [List.getElem?_take]
      by_cases hi : i + 1 < start
      · rw [if_pos hi, if_pos (by omega), ← entry, h.succ i]
      · rw [if_neg hi, if_neg (by omega), Option.map_none]
  have hcache := Rows.holds (l := { l with
    table := l.table.filter (fun r => r.index < start), nextIndex := start,
    lastIndex := start - 1 }) hrows
  obtain ⟨lr, hlr, hterm⟩ := hcache.exists_getLogRecord b hlen.ge
  have hlr' : (⟨l.table.filter (fun r => r.index < start), start, l.lastApplied, start - 1,
      l.lastTerm, l.fedLog, l.logRetention, l.limitPurge, l.limit⟩ : LogDB).getLogRecord
        (start - 1) (pred64 (start - 1)) b = some lr := hlr
  unfold LogDB.deleteLogRecords
  simp only [if_true, hpred, hlr']
  refine ⟨⟨hrows.zero, hrows.succ, hlen.symm, ?_, ?_⟩, ?_⟩
  · rw [hlen]
    show start = _
    omega
  · show lr.term = _
    rw [hterm, lastTerm_eq_termAt, hlen]
  · exact fun A hA => ⟨fun r hr => hA.rows r (List.mem_filter.mp hr).1, hA.last⟩

/-! ## Application -/

theorem lookup_markRows {l l' : LogDB} {f : LogRow → LogRow} (ht : l'.table = l.table.map f)
    (hf : ∀ r, (f r).index = r.index) (i : ℕ) : l'.lookup i = (l.lookup i).map f := by
  unfold lookup
  rw [ht, List.find?_map]
  congr 2
  funext r
  simp [hf]

/-- Marking rows as applied does not change what the log holds. -/
theorem Holds.markRows {l l' : LogDB} {boot : Sql} {L : List (Entry Sql)} (h : l.Holds boot L)
    {f : LogRow → LogRow} (ht : l'.table = l.table.map f)
    (hf : ∀ r, (f r).index = r.index ∧ (f r).term = r.term ∧ (f r).sql = r.sql ∧
      (r.applied = true → (f r).applied = true))
    (hlast : l'.lastIndex = l.lastIndex) (hnext : l'.nextIndex = l.nextIndex)
    (hterm : l'.lastTerm = l.lastTerm) : l'.Holds boot L := by
  have hlook := lookup_markRows ht (fun r => (hf r).1)
  refine ⟨?_, ?_, hlast.trans h.last, hnext.trans h.next, hterm.trans h.term⟩
  · obtain ⟨r, hr, h1, h2, h3⟩ := h.zero
    obtain ⟨-, e1, e2, e3⟩ := hf r
    refine ⟨f r, ?_, e1.trans h1, e2.trans h2, e3 h3⟩
    rw [hlook, hr, Option.map_some]
  · intro i
    rw [← h.succ i, entry, entry, hlook, Option.map_map]
    congr 1
    funext r
    simp [(hf r).2.1, (hf r).2.2.1]

/-- What a row holds, apart from the mark of its application. -/
def rowContent (r : LogRow) : ℕ × ℕ × Sql × Option ℕ :=
  (r.index, r.term, r.sql, r.fedIndex)

/-- The log after some of its records have been applied. -/
structure Marks (l l' : LogDB) : Prop where
  content : l'.table.map rowContent = l.table.map rowContent
  nextIndex : l'.nextIndex = l.nextIndex
  lastIndex : l'.lastIndex = l.lastIndex
  lastTerm : l'.lastTerm = l.lastTerm
  fedLog : l'.fedLog = l.fedLog

theorem Marks.refl (l : LogDB) : Marks l l := ⟨rfl, rfl, rfl, rfl, rfl⟩

theorem Marks.trans {l l' l'' : LogDB} (h : Marks l l') (h' : Marks l' l'') : Marks l l'' where
  content := h'.content.trans h.content
  nextIndex := h'.nextIndex.trans h.nextIndex
  lastIndex := h'.lastIndex.trans h.lastIndex
  lastTerm := h'.lastTerm.trans h.lastTerm
  fedLog := h'.fedLog.trans h.fedLog

theorem lookup_content (l : LogDB) (i : ℕ) :
    (l.lookup i).map rowContent =
      (l.table.map rowContent).find? (fun c => c.1 = i) := by
  rw [lookup, List.find?_map]
  rfl

theorem Marks.lookup {l l' : LogDB} (h : Marks l l') (i : ℕ) :
    (l'.lookup i).map rowContent = (l.lookup i).map rowContent := by
  rw [lookup_content, lookup_content, h.content]

theorem Marks.lookup_isSome {l l' : LogDB} (h : Marks l l') (i : ℕ) :
    (l'.lookup i).isSome = (l.lookup i).isSome := by
  have hi := congrArg Option.isSome (h.lookup i)
  rwa [Option.isSome_map, Option.isSome_map] at hi

theorem applyLogRecord_marks (l : LogDB) (dbOk : Bool) (now : ℕ) (lr : LogDBRecord)
    (rc : SqlError) : Marks l (l.applyLogRecord dbOk now lr rc).1 := by
  unfold LogDB.applyLogRecord
  split
  · refine ⟨?_, rfl, rfl, rfl, rfl⟩
    cases dbOk with
    | false => rfl
    | true =>
      simp only [if_true, List.map_map]
      apply List.map_congr_left
      intro r _
      simp only [Function.comp]
      split <;> rfl
  · exact Marks.refl l

theorem applyLogRecord_cases (l : LogDB) (dbOk : Bool) (now : ℕ) (lr : LogDBRecord)
    (rc : SqlError) :
    (l.applyLogRecord dbOk now lr rc = (l, false)) ∨
      (l.applyLogRecord dbOk now lr rc).1.lastApplied = lr.index := by
  unfold LogDB.applyLogRecord
  split
  · exact Or.inr rfl
  · exact Or.inl rfl

theorem selectRecord_index {l : LogDB} {b : Backend} {i j : ℕ} {lr : LogDBRecord}
    (hg : l.selectRecord i j b = some lr) : lr.index = i := by
  unfold LogDB.selectRecord at hg
  split at hg
  · rename_i c p hc _
    rw [Option.some.injEq] at hg
    rw [← hg]
    exact (lookup_some hc).2
  · exact absurd hg (by simp)

theorem lookup_of_selectRecord {l : LogDB} {b : Backend} {i j : ℕ} {lr : LogDBRecord}
    (hg : l.selectRecord i j b = some lr) :
    ∃ f, (l.lookup i).map rowContent = some (lr.index, lr.term, lr.sql, f) ∧
      lr.fedIndex = f.or b.unfederated := by
  unfold LogDB.selectRecord at hg
  split at hg
  · rename_i c p hc _
    rw [Option.some.injEq] at hg
    rw [hc, Option.map_some, ← hg, rowContent]
    exact ⟨c.fedIndex, rfl, rfl⟩
  · exact absurd hg (by simp)

/-- One turn of the loop of `apply_log_records`: the next record is not there, it is not consumed,
or it is and the loop stops or goes on. -/
theorem applyLoop_succ (b : Backend) (dbOk : Bool) (now : ℕ) (exec : ℕ → SqlError)
    (missing : LogDB → LogDB × Bool × List LogDBRecord) (n : ℕ) (l : LogDB) :
    (l.selectRecord (l.lastApplied + 1) l.lastApplied b = none ∧
        applyLoop b dbOk now exec missing (n + 1) l = missing l) ∨
      applyLoop b dbOk now exec missing (n + 1) l = (l, false, []) ∨
      ∃ lr l₁, l.selectRecord (l.lastApplied + 1) l.lastApplied b = some lr ∧
        l₁ = (l.applyLogRecord dbOk now lr (exec lr.index)).1 ∧ l₁.lastApplied = lr.index ∧
        (applyLoop b dbOk now exec missing (n + 1) l = (l₁, false, [lr]) ∨
          applyLoop b dbOk now exec missing (n + 1) l =
            ((applyLoop b dbOk now exec missing n l₁).1,
              (applyLoop b dbOk now exec missing n l₁).2.1,
              lr :: (applyLoop b dbOk now exec missing n l₁).2.2)) := by
  cases hg : l.selectRecord (l.lastApplied + 1) l.lastApplied b with
  | none =>
    left
    rw [applyLoop, hg]
    exact ⟨rfl, rfl⟩
  | some lr =>
    right
    have hidx := selectRecord_index hg
    rcases applyLogRecord_cases l dbOk now lr (exec lr.index) with hfail | hdone
    · left
      rw [applyLoop, hg]
      dsimp only
      rw [hfail]
      dsimp only
      rw [if_neg Bool.false_ne_true, if_neg (by omega)]
    · refine Or.inr ⟨lr, _, rfl, rfl, hdone, ?_⟩
      rw [applyLoop, hg]
      dsimp only
      rw [if_pos hdone]
      cases (l.applyLogRecord dbOk now lr (exec lr.index)).2 with
      | false => exact Or.inl rfl
      | true => exact Or.inr rfl

/-- What every `apply_log_record` keeps, a loop keeps. -/
theorem applyLoop_keeps {P : LogDB → Prop} {b : Backend} {dbOk : Bool} {now : ℕ}
    {exec : ℕ → SqlError} {missing : LogDB → LogDB × Bool × List LogDBRecord}
    (hP : ∀ l lr rc, P l → P (l.applyLogRecord dbOk now lr rc).1)
    (hmissing : ∀ l, P l → P (missing l).1) (n : ℕ) :
    ∀ l, P l → P (applyLoop b dbOk now exec missing n l).1 := by
  induction n with
  | zero => exact fun l h => h
  | succ n ih =>
    intro l h
    rcases applyLoop_succ b dbOk now exec missing n l with
      ⟨-, heq⟩ | heq | ⟨lr, l₁, -, rfl, -, heq | heq⟩
    · rw [heq]
      exact hmissing l h
    · rw [heq]
      exact h
    · rw [heq]
      exact hP l lr _ h
    · rw [heq]
      exact ih _ (hP l lr _ h)

theorem applyLogRecords_keeps {P : LogDB → Prop} {dbOk : Bool} {now : ℕ}
    (hP : ∀ l lr rc, P l → P (l.applyLogRecord dbOk now lr rc).1) {l : LogDB} (h : P l)
    (exec : ℕ → SqlError) (commit : ℕ) (b : Backend) :
    P (l.applyLogRecords dbOk now exec commit b).1 := by
  have hmissing : ∀ unfilled l, P l → P (applyMissing b dbOk now exec commit unfilled l).1 := by
    intro unfilled
    induction unfilled with
    | nil => exact fun l h => h
    | cons lr unfilled ih =>
      exact fun l h => applyLoop_keeps hP ih _ _ (hP l { lr with sql := [] } .success h)
  exact applyLoop_keeps hP (hmissing _) _ _ h

theorem Holds.applyLogRecord {l : LogDB} {boot : Sql} {L : List (Entry Sql)} (h : l.Holds boot L)
    (dbOk : Bool) (now : ℕ) (lr : LogDBRecord) (rc : SqlError) :
    (l.applyLogRecord dbOk now lr rc).1.Holds boot L := by
  unfold LogDB.applyLogRecord
  split
  · cases dbOk with
    | false => exact ⟨h.zero, h.succ, h.last, h.next, h.term⟩
    | true =>
      refine h.markRows (f := fun r => if r.index = lr.index ∧ r.timestamp = 0 then
        { r with timestamp := now, applied := true } else r) rfl ?_ rfl rfl rfl
      intro r
      split <;> simp
  · exact h

theorem AppliedIn.applyLogRecord {l : LogDB} {A : ℕ → Prop} (h : l.AppliedIn A) (dbOk : Bool)
    (now : ℕ) {lr : LogDBRecord} (rc : SqlError) (hlr : A lr.index) :
    (l.applyLogRecord dbOk now lr rc).1.AppliedIn A := by
  unfold LogDB.applyLogRecord
  split
  · refine ⟨?_, hlr⟩
    cases dbOk with
    | false => exact h.rows
    | true =>
      intro r hr happ
      obtain ⟨q, hq, rfl⟩ := List.mem_map.mp hr
      split at happ
      · rename_i hq'
        rw [if_pos hq', hq'.1]
        exact hlr
      · rename_i hq'
        rw [if_neg hq']
        exact h.rows q hq happ
  · exact h

theorem isSome_selectRecord (l : LogDB) (b : Backend) (i j : ℕ) :
    (l.selectRecord i j b).isSome =
      ((l.lookup i).isSome && (l.lookup (if i = 0 then 0 else j)).isSome) := by
  unfold LogDB.selectRecord
  cases l.lookup i with
  | none => rfl
  | some c => cases l.lookup (if i = 0 then 0 else j) <;> rfl

/-- The loop of `apply_log_records` when a query that finds no row returns `-1`. -/
abbrev reportedLoop (b : Backend) (dbOk : Bool) (now : ℕ) (exec : ℕ → SqlError) :
    ℕ → LogDB → LogDB × Bool × List LogDBRecord :=
  applyLoop b dbOk now exec (fun l => (l, false, []))

theorem reportedLoop_succ (b : Backend) (dbOk : Bool) (now : ℕ) (exec : ℕ → SqlError) (n : ℕ)
    (l : LogDB) :
    reportedLoop b dbOk now exec (n + 1) l = (l, false, []) ∨
      ∃ lr l₁, l.selectRecord (l.lastApplied + 1) l.lastApplied b = some lr ∧
        l₁ = (l.applyLogRecord dbOk now lr (exec lr.index)).1 ∧ l₁.lastApplied = lr.index ∧
        (reportedLoop b dbOk now exec (n + 1) l = (l₁, false, [lr]) ∨
          reportedLoop b dbOk now exec (n + 1) l = ((reportedLoop b dbOk now exec n l₁).1,
            (reportedLoop b dbOk now exec n l₁).2.1,
            lr :: (reportedLoop b dbOk now exec n l₁).2.2)) := by
  rcases applyLoop_succ b dbOk now exec (fun l => (l, false, [])) n l with ⟨-, hstop⟩ | hcases
  · exact Or.inl hstop
  · exact hcases

/-- What follows a missing record does not matter when no record is missing. -/
theorem applyLoop_eq (b : Backend) (dbOk : Bool) (now : ℕ) (exec : ℕ → SqlError)
    (missing : LogDB → LogDB × Bool × List LogDBRecord) (n : ℕ) :
    ∀ l : LogDB, (∀ i, l.lastApplied < i → i ≤ l.lastApplied + n →
        (l.selectRecord i (pred64 i) b).isSome) →
      applyLoop b dbOk now exec missing n l = reportedLoop b dbOk now exec n l := by
  induction n with
  | zero => exact fun l _ => rfl
  | succ n ih =>
    intro l h
    unfold reportedLoop
    rw [applyLoop, applyLoop]
    cases hg : l.selectRecord (l.lastApplied + 1) l.lastApplied b with
    | none =>
      have hsome := h (l.lastApplied + 1) (by omega) (by omega)
      rw [show pred64 (l.lastApplied + 1) = l.lastApplied from rfl, hg] at hsome
      exact absurd hsome (by simp)
    | some lr =>
      dsimp only
      cases hok : (l.applyLogRecord dbOk now lr (exec lr.index)).2 with
      | false => rfl
      | true =>
        rw [if_pos rfl, if_pos rfl, ih]
        intro i hi hin
        have hidx := selectRecord_index hg
        rcases applyLogRecord_cases l dbOk now lr (exec lr.index) with hfail | hdone
        · rw [hfail] at hok
          exact absurd hok (by simp)
        · have hmarks := l.applyLogRecord_marks dbOk now lr (exec lr.index)
          rw [isSome_selectRecord, hmarks.lookup_isSome, hmarks.lookup_isSome, ← isSome_selectRecord]
          exact h i (by omega) (by omega)

/-- `apply_log_records` when every record up to the commit index is there or reported. -/
theorem applyLogRecords_eq {l : LogDB} {b : Backend} {commit : ℕ}
    (hf : ∀ i, i ≤ commit → l.lastApplied < i → l.Finds b i) (dbOk : Bool) (now : ℕ)
    (exec : ℕ → SqlError) :
    l.applyLogRecords dbOk now exec commit b =
      reportedLoop b dbOk now exec (commit - l.lastApplied) l := by
  unfold LogDB.applyLogRecords
  by_cases hb : b.unfilled = []
  · rw [hb]
    rfl
  · refine applyLoop_eq _ _ _ _ _ _ l fun i hi hin => ?_
    rcases Nat.lt_or_ge commit i with hlt | hle
    · omega
    · exact (hf i hle hi).resolve_left hb

/-- The loop of `apply_log_records` keeps the log, applies records of it in the order of
their indexes, and goes no further than `n` records. -/
theorem reportedLoop_spec (b : Backend) (dbOk : Bool) (now : ℕ) (exec : ℕ → SqlError) (n : ℕ) :
    ∀ {l : LogDB} {boot : Sql} {L : List (Entry Sql)} {A : ℕ → Prop}, l.Holds boot L →
      l.AppliedIn A → (∀ i, i ≤ l.lastApplied + n → i ≤ L.length → A i) →
      (reportedLoop b dbOk now exec n l).1.Holds boot L ∧
      (reportedLoop b dbOk now exec n l).1.AppliedIn A ∧
      ∀ lr ∈ (reportedLoop b dbOk now exec n l).2.2, l.lastApplied < lr.index ∧
        lr.index ≤ l.lastApplied + n ∧ L[lr.index - 1]? = some (lr.term, lr.sql) := by
  induction n with
  | zero =>
    intro l boot L A h hA _
    exact ⟨h, hA, fun lr hlr => absurd hlr (by simp [reportedLoop, applyLoop])⟩
  | succ n ih =>
    intro l boot L A h hA hAn
    rcases reportedLoop_succ b dbOk now exec n l with hstop | ⟨lr, l₁, hg, hl₁, hlast, hcase⟩
    · rw [hstop]
      exact ⟨h, hA, fun lr hlr => absurd hlr (by simp)⟩
    · obtain ⟨hidx, hle, -, -, -, hent⟩ := h.selectRecord_some (i := l.lastApplied + 1) hg
      have hent' := hent (by omega)
      rw [← hidx] at hent'
      have hlr : A lr.index := hidx ▸ hAn _ (by omega) hle
      have h' : l₁.Holds boot L := hl₁ ▸ h.applyLogRecord dbOk now lr (exec lr.index)
      have hA' : l₁.AppliedIn A := hl₁ ▸ hA.applyLogRecord dbOk now (exec lr.index) hlr
      rcases hcase with heq | heq
      · rw [heq]
        refine ⟨h', hA', ?_⟩
        intro lr' hmem
        rw [List.mem_singleton.mp hmem]
        exact ⟨by omega, by omega, hent'⟩
      · obtain ⟨r1, r2, r3⟩ := ih h' hA' (by
          intro i hi hiL
          exact hAn i (by omega) hiL)
        rw [heq]
        refine ⟨r1, r2, ?_⟩
        intro lr' hmem
        rcases List.mem_cons.mp hmem with rfl | hmem
        · exact ⟨by omega, by omega, hent'⟩
        · obtain ⟨s1, s2, s3⟩ := r3 lr' hmem
          exact ⟨by omega, by omega, s3⟩

/-- The loop of `apply_log_records` on any log: it marks the records that follow the last one
applied, in the order of their indexes. -/
theorem reportedLoop_marks (b : Backend) (dbOk : Bool) (now : ℕ) (exec : ℕ → SqlError) (n : ℕ) :
    ∀ l : LogDB, Marks l (reportedLoop b dbOk now exec n l).1 ∧
      l.lastApplied ≤ (reportedLoop b dbOk now exec n l).1.lastApplied ∧
      (reportedLoop b dbOk now exec n l).2.2.map LogDBRecord.index =
        List.range' (l.lastApplied + 1)
          ((reportedLoop b dbOk now exec n l).1.lastApplied - l.lastApplied) ∧
      ∀ lr ∈ (reportedLoop b dbOk now exec n l).2.2, b.unfederated = none →
        (l.lookup lr.index).map rowContent = some (lr.index, lr.term, lr.sql, lr.fedIndex) := by
  induction n with
  | zero =>
    exact fun l => ⟨Marks.refl l, le_rfl, by simp [reportedLoop, applyLoop],
      by simp [reportedLoop, applyLoop]⟩
  | succ n ih =>
    intro l
    rcases reportedLoop_succ b dbOk now exec n l with hstop | ⟨lr, l₁, hg, hl₁, hlast, hcase⟩
    · rw [hstop]
      exact ⟨Marks.refl l, le_rfl, by simp, by simp⟩
    · have hidx := selectRecord_index hg
      have hlook : b.unfederated = none → (l.lookup lr.index).map rowContent =
          some (lr.index, lr.term, lr.sql, lr.fedIndex) := by
        intro hb
        obtain ⟨f, hf, hfed⟩ := lookup_of_selectRecord hg
        rw [hfed, hb, Option.or_none, hidx, hf, hidx]
      have hmark : Marks l l₁ := hl₁ ▸ l.applyLogRecord_marks dbOk now lr (exec lr.index)
      rcases hcase with heq | heq
      · rw [heq]
        refine ⟨hmark, by dsimp only; omega, ?_, ?_⟩
        · dsimp only
          rw [hlast, hidx, Nat.add_sub_cancel_left]
          simp [hidx]
        · intro lr' hlr'
          rw [List.mem_singleton.mp hlr']
          exact hlook
      · obtain ⟨h1, h2, h3, h4⟩ := ih l₁
        rw [heq]
        generalize reportedLoop b dbOk now exec n l₁ = res at h1 h2 h3 h4 ⊢
        obtain ⟨l₂, ok₂, lrs₂⟩ := res
        dsimp only at h1 h2 h3 h4 ⊢
        refine ⟨hmark.trans h1, by omega, ?_, ?_⟩
        · rw [List.map_cons, h3, hlast, hidx, show l₂.lastApplied - l.lastApplied =
            l₂.lastApplied - (l.lastApplied + 1) + 1 by omega, List.range'_succ]
        · intro lr' hlr'
          rcases List.mem_cons.mp hlr' with rfl | hold
          · exact hlook
          · rw [← hmark.lookup]
            exact h4 lr' hold

theorem applyLogRecords_marks (l : LogDB) (dbOk : Bool) (now : ℕ) (exec : ℕ → SqlError)
    (commit : ℕ) (b : Backend) : Marks l (l.applyLogRecords dbOk now exec commit b).1 :=
  applyLogRecords_keeps (P := Marks l) (fun l' _ _ h => h.trans (l'.applyLogRecord_marks _ _ _ _))
    (Marks.refl l) exec commit b

theorem Holds.applyLogRecords_holds {l : LogDB} {boot : Sql} {L : List (Entry Sql)}
    (h : l.Holds boot L) (dbOk : Bool) (now : ℕ) (exec : ℕ → SqlError) (commit : ℕ) (b : Backend) :
    (l.applyLogRecords dbOk now exec commit b).1.Holds boot L :=
  applyLogRecords_keeps (P := fun l => l.Holds boot L)
    (fun _ lr rc h => Holds.applyLogRecord h _ _ lr rc) h exec commit b

/-- `apply_log_records` applies records of the log up to the commit index. -/
theorem Holds.applyLogRecords {l : LogDB} {boot : Sql} {L : List (Entry Sql)} {A : ℕ → Prop}
    (h : l.Holds boot L) (hA : l.AppliedIn A) {commit : ℕ} (hc : ∀ i, i ≤ commit → A i)
    {b : Backend} (hf : ∀ i, i ≤ commit → l.lastApplied < i → l.Finds b i) (dbOk : Bool) (now : ℕ)
    (exec : ℕ → SqlError) :
    (l.applyLogRecords dbOk now exec commit b).1.AppliedIn A ∧
      ∀ lr ∈ (l.applyLogRecords dbOk now exec commit b).2.2, 0 < lr.index ∧
        lr.index ≤ commit ∧ L[lr.index - 1]? = some (lr.term, lr.sql) := by
  rw [applyLogRecords_eq hf]
  rcases Nat.le_total commit l.lastApplied with hle | hle
  · rw [Nat.sub_eq_zero_of_le hle]
    exact ⟨hA, fun lr hlr => absurd hlr (by simp [reportedLoop, applyLoop])⟩
  · obtain ⟨-, h2, h3⟩ := reportedLoop_spec b dbOk now exec (commit - l.lastApplied) h hA
      (fun i hi _ => hc i (by omega))
    refine ⟨h2, ?_⟩
    intro lr hlr
    obtain ⟨s1, s2, s3⟩ := h3 lr hlr
    exact ⟨by omega, by omega, s3⟩

end LogDB
