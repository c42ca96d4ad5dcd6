/-
# The order in which the log is applied

The cursor of the log is `last_applied` in memory and, for a server that starts, the greatest index
that is marked as applied in the table.  An `Applier` is a log with what it has done so far: the
indexes of the records that it has consumed, the commit indexes it was asked for, and whether the
`UPDATE` of the last record that it consumed was executed.

Only `apply_log_records` moves the cursor, one record at a time, so that the indexes consumed are
consecutive whatever the other operations do (`InOrder`), as long as it finds the records up to the
commit index or is told that one is missing (`Reported`).  SQLite does not tell: the record that is
not filled in is consumed, and the cursor moves to whatever index was in it.

That `setup_index` finds the same cursor again needs more: no record beyond it is marked as applied
and the one under it is (`Resumable`).  The purge keeps that record, and the callers keep the rest:
they insert records with the timestamp `0`, and replace a record only where none is left.
-/
import OpenNebula.LogPurge

open Transition

namespace LogDB

/-! ## Runs of the log -/

/-- The log with the indexes that it has consumed, the commit indexes it was asked for, and whether
the last record consumed is marked as applied in the table. -/
structure Applier where
  db : LogDB
  consumed : List ℕ
  asked : List ℕ
  marked : Bool
  deriving DecidableEq

/-- A log that has consumed nothing yet. -/
def Applier.start (l : LogDB) : Applier := ⟨l, [], [], true⟩

/-- One operation, with what the database answers to its queries; `none` is a call that does not
return. -/
def Applier.step (a : Applier) : Backend × Op → Option Applier
  | (b, .applyLogRecords dbOk now exec commit) =>
    let (l, _, lrs) := a.db.applyLogRecords dbOk now exec commit b
    some { db := l
           consumed := a.consumed ++ lrs.map LogDBRecord.index
           asked := a.asked ++ [commit]
           marked := if lrs.isEmpty then a.marked else dbOk }
  | e => (a.db.step e).map (fun l => { a with db := l })

/-- The operations of a server that is running: records are deleted beyond `last_applied` only, and
the purge retains at least one record. -/
def Running (l : LogDB) : Op → Prop
  | .deleteLogRecords _ start => l.lastApplied < start
  | .purgeLog => 1 ≤ l.logRetention
  | .setupIndex => False
  | _ => True

/-- `apply_log_records` finds every record up to the commit index, or is told that there is none. -/
def Reported (l : LogDB) : Backend × Op → Prop
  | (b, .applyLogRecords _ _ _ commit) => ∀ i, i ≤ commit → l.lastApplied < i → l.Finds b i
  | _ => True

/-- The operations as the servers of a zone call them: in addition, a record is inserted to be
applied later, and `REPLACE` never meets a record that is applied already. -/
def Promised (l : LogDB) : Op → Prop
  | .insertLogRecord _ _ _ ts _ => ts = 0
  | .insertLogRecordAt _ index _ _ ts _ replace =>
    ts = 0 ∧ (replace = true → l.lookup index = none ∨ l.lastApplied < index)
  | op => l.Running op

instance (l : LogDB) (op : Op) : Decidable (l.Running op) := by
  unfold Running
  split <;> infer_instance

instance (l : LogDB) : (e : Backend × Op) → Decidable (l.Reported e)
  | (b, op) => by cases op <;> unfold Reported <;> infer_instance

instance (l : LogDB) (op : Op) : Decidable (l.Promised op) := by
  unfold Promised
  split <;> infer_instance

theorem running_of_promised {l : LogDB} {op : Op} (h : l.Promised op) : l.Running op := by
  cases op with
  | insertLogRecord => trivial
  | insertLogRecordAt => trivial
  | deleteLogRecords => exact h
  | applyLogRecords => trivial
  | purgeLog => exact h
  | setupIndex => exact h

/-- A call of `apply_log_records`. -/
theorem Applier.step_apply {a a' : Applier} {b : Backend} {dbOk : Bool} {now commit : ℕ}
    {exec : ℕ → SqlError} (hf : a.db.Reported (b, .applyLogRecords dbOk now exec commit))
    (h : a.step (b, .applyLogRecords dbOk now exec commit) = some a') :
    ∃ res, res = reportedLoop b dbOk now exec (commit - a.db.lastApplied) a.db ∧
      a' = { db := res.1
             consumed := a.consumed ++ res.2.2.map LogDBRecord.index
             asked := a.asked ++ [commit]
             marked := if res.2.2.isEmpty then a.marked else dbOk } :=
  ⟨_, (applyLogRecords_eq hf dbOk now exec).symm ▸ rfl, (Option.some.inj h).symm⟩

/-- The other operations only change the log, and they leave the cursor in place. -/
theorem Applier.step_other {a a' : Applier} {b : Backend} {op : Op} (hrun : a.db.Running op)
    (hnot : ∀ dbOk now exec commit, op ≠ .applyLogRecords dbOk now exec commit)
    (h : a.step (b, op) = some a') :
    ∃ l, a.db.step (b, op) = some l ∧ l.lastApplied = a.db.lastApplied ∧
      a' = { a with db := l } := by
  cases op with
  | insertLogRecord dbOk term sql ts fed =>
    obtain ⟨l, hl, rfl⟩ := Option.map_eq_some_iff.mp h
    refine ⟨l, hl, ?_, rfl⟩
    obtain ⟨⟨l₁, o⟩, hins, rfl⟩ := Option.map_eq_some_iff.mp hl
    rcases insertLogRecord_cases hins with ⟨-, rfl, -⟩ | ⟨-, -, -, -, happ, -⟩
    · rfl
    · exact happ
  | insertLogRecordAt dbOk index term sql ts fed replace =>
    obtain ⟨l, hl, rfl⟩ := Option.map_eq_some_iff.mp h
    refine ⟨l, hl, ?_, rfl⟩
    obtain ⟨⟨l₁, ok⟩, hins, rfl⟩ := Option.map_eq_some_iff.mp hl
    rcases insertLogRecordAt_cases hins with ⟨-, rfl⟩ | ⟨-, happ, -⟩
    · rfl
    · exact happ
  | deleteLogRecords dbOk start =>
    refine ⟨_, rfl, ?_, (Option.some.inj h).symm⟩
    cases dbOk with
    | false => rfl
    | true =>
      obtain ⟨t, ht⟩ := a.db.deleteLogRecords_eq start b
      rw [ht]
  | applyLogRecords dbOk now exec commit => exact absurd rfl (hnot dbOk now exec commit)
  | purgeLog =>
    refine ⟨_, rfl, ?_, (Option.some.inj h).symm⟩
    obtain ⟨keep, fed, heq, -⟩ := a.db.purgeLog_filter hrun
    rw [heq]
  | setupIndex => exact absurd hrun (by simp [Running])

/-! ## The indexes consumed -/

/-- The loop of `apply_log_records` moves the cursor by at most `n` records. -/
theorem reportedLoop_le (b : Backend) (dbOk : Bool) (now : ℕ) (exec : ℕ → SqlError) (n : ℕ) :
    ∀ l : LogDB, (reportedLoop b dbOk now exec n l).1.lastApplied ≤ l.lastApplied + n := by
  induction n with
  | zero => exact fun l => le_rfl
  | succ n ih =>
    intro l
    rcases reportedLoop_succ b dbOk now exec n l with hstop | ⟨lr, l₁, hg, -, hlast, hcase⟩
    · rw [hstop]
      exact Nat.le_add_right _ _
    · have hidx := selectRecord_index hg
      have hrest := ih l₁
      rcases hcase with heq | heq
      · rw [heq]
        dsimp only
        omega
      · rw [heq]
        dsimp only
        omega

/-- The indexes consumed since the cursor was at `start`: all of them up to the cursor, in order,
and none beyond the commit indexes. -/
structure InOrder (start : ℕ) (a : Applier) : Prop where
  le : start ≤ a.db.lastApplied
  consumed : a.consumed = List.range' (start + 1) (a.db.lastApplied - start)
  asked : start < a.db.lastApplied → ∃ c ∈ a.asked, a.db.lastApplied ≤ c

theorem InOrder.start (l : LogDB) : InOrder l.lastApplied (Applier.start l) where
  le := le_rfl
  consumed := by
    rw [show (Applier.start l).db.lastApplied = l.lastApplied from rfl, Nat.sub_self]
    rfl
  asked := fun h => absurd h (lt_irrefl _)

/-- **One operation** keeps the order of the indexes. -/
theorem InOrder.step {start : ℕ} {a a' : Applier} {b : Backend} {op : Op} (h : InOrder start a)
    (hrun : a.db.Running op) (hf : a.db.Reported (b, op)) (hstep : a.step (b, op) = some a') :
    InOrder start a' := by
  by_cases happly : ∃ dbOk now exec commit, op = .applyLogRecords dbOk now exec commit
  · obtain ⟨dbOk, now, exec, commit, rfl⟩ := happly
    obtain ⟨res, hres, rfl⟩ := Applier.step_apply hf hstep
    obtain ⟨-, hle, hidx, -⟩ :=
      reportedLoop_marks b dbOk now exec (commit - a.db.lastApplied) a.db
    have hbound := reportedLoop_le b dbOk now exec (commit - a.db.lastApplied) a.db
    have hstart := h.le
    rw [← hres] at hle hidx hbound
    refine ⟨by dsimp only; omega, ?_, ?_⟩
    · dsimp only
      rw [h.consumed, hidx, show a.db.lastApplied + 1 = start + 1 + 1 * (a.db.lastApplied - start) by
        omega, List.range'_append]
      congr 1
      omega
    · intro hlt
      dsimp only at hlt ⊢
      by_cases hmoved : res.1.lastApplied = a.db.lastApplied
      · obtain ⟨c, hc, hle'⟩ := h.asked (hmoved ▸ hlt)
        exact ⟨c, List.mem_append_left _ hc, hmoved ▸ hle'⟩
      · exact ⟨commit, by simp, by omega⟩
  · obtain ⟨l, -, happ, rfl⟩ := Applier.step_other hrun
      (fun dbOk now exec commit heq => happly ⟨dbOk, now, exec, commit, heq⟩) hstep
    refine ⟨?_, ?_, ?_⟩
    · rw [happ]
      exact h.le
    · rw [happ]
      exact h.consumed
    · rw [happ]
      exact h.asked

/-! ## The restart -/

/-- A log whose cursor `setup_index` finds again: no record beyond it is marked as applied, a record
with a timestamp is marked, and so is the one at the cursor if `marked` says so. -/
structure Resumable (l : LogDB) (marked : Bool) : Prop where
  behind : l.AppliedBehind
  stamped : ∀ r ∈ l.table, r.timestamp ≠ 0 → r.applied = true
  last : marked = true → ∃ r ∈ l.table, r.index = l.lastApplied ∧ r.applied = true

/-- **The restart** of a log with a marked record at the cursor. -/
theorem Resumable.setupIndex {l : LogDB} (h : l.Resumable true) (b : Backend) :
    (l.setupIndex b).1.lastApplied = l.lastApplied := by
  obtain ⟨r, hr, hri, happ⟩ := h.last rfl
  obtain ⟨m, hm⟩ := exists_maxIndex (p := fun _ => true) hr rfl
  obtain ⟨a, ha⟩ := exists_maxIndex (p := LogRow.applied) hr happ
  have heq : a = l.lastApplied := by
    obtain ⟨⟨q, hq, hqa, rfl⟩, hmax⟩ := maxIndex_spec ha
    have hle := h.behind q hq hqa
    have hge := hmax r hr happ
    omega
  unfold LogDB.setupIndex
  simp only [hm, ha]
  split <;> exact heq

/-- What `setup_index` leaves on a table with an applied record. -/
theorem resumable_setupIndex {l : LogDB} (hstamp : ∀ r ∈ l.table, r.timestamp ≠ 0 → r.applied = true)
    (happ : ∃ r ∈ l.table, r.applied = true) : l.setupIndex.1.Resumable true := by
  obtain ⟨r, hr, happ⟩ := happ
  obtain ⟨m, hm⟩ := exists_maxIndex (p := fun _ => true) hr rfl
  obtain ⟨a, ha⟩ := exists_maxIndex (p := LogRow.applied) hr happ
  obtain ⟨⟨q, hq, hqa, hqi⟩, hmax⟩ := maxIndex_spec ha
  have htable : l.setupIndex.1.table = l.table := by
    unfold LogDB.setupIndex
    simp only [hm, ha]
    split <;> rfl
  have hlast : l.setupIndex.1.lastApplied = a := by
    unfold LogDB.setupIndex
    simp only [hm, ha]
    split <;> rfl
  refine ⟨?_, ?_, fun _ => ⟨q, ?_, ?_, hqa⟩⟩
  · intro q' hq' happ'
    rw [hlast]
    exact hmax q' (htable ▸ hq') happ'
  · rw [htable]
    exact hstamp
  · rw [htable]
    exact hq
  · rw [hlast, hqi]

/-! ### The operations -/

/-- A record that is still to be applied is written beyond the cursor, or where there is none. -/
theorem Resumable.insertRow {l l' : LogDB} {marked : Bool} (h : l.Resumable marked) (row : LogRow)
    (ht : l'.table = l.table.filter (fun r => r.index ≠ row.index) ++ [row])
    (hrow : row.applied = false) (hstamp : row.timestamp = 0)
    (hfree : l.lookup row.index = none ∨ l.lastApplied < row.index)
    (hlast : l'.lastApplied = l.lastApplied) : l'.Resumable marked := by
  refine ⟨?_, ?_, ?_⟩
  · have hin := (h.behind.appliedIn.insertRow row ht hrow hlast).rows
    rwa [← hlast] at hin
  · intro r hr hts
    rw [ht, mem_insertRow] at hr
    rcases hr with ⟨hr, -⟩ | rfl
    · exact h.stamped r hr hts
    · exact absurd hstamp hts
  · intro hm
    obtain ⟨r, hr, hri, happ⟩ := h.last hm
    refine ⟨r, ?_, by rw [hri, hlast], happ⟩
    rw [ht, mem_insertRow]
    refine Or.inl ⟨hr, ?_⟩
    rcases hfree with hnone | hlt
    · intro heq
      have hsome := lookup_isSome_of_mem hr
      rw [heq, hnone] at hsome
      exact absurd hsome (by simp)
    · omega

/-- Nothing but the cached values changes. -/
theorem Resumable.congr {l l' : LogDB} {marked : Bool} (h : l.Resumable marked)
    (ht : l'.table = l.table) (hlast : l'.lastApplied = l.lastApplied) : l'.Resumable marked := by
  refine ⟨?_, ?_, ?_⟩
  · intro r hr happ
    rw [hlast]
    exact h.behind r (ht ▸ hr) happ
  · rw [ht]
    exact h.stamped
  · rw [ht, hlast]
    exact h.last

theorem Resumable.insertLogRecord {l l' : LogDB} {marked dbOk : Bool} (h : l.Resumable marked)
    {term : ℕ} {sql : Sql} {fed o : Option ℕ} {b : Backend}
    (hins : l.insertLogRecord dbOk term sql 0 fed b = some (l', o)) : l'.Resumable marked := by
  rcases insertLogRecord_cases hins with ⟨-, rfl, -⟩ | ⟨-, -, -, -, hlast, hcase⟩
  · exact h
  · rcases hcase with ⟨hnone, -, row, hidx, -, -, -, ⟨hts, happ⟩, ht⟩ | ⟨-, -, -, ht⟩
    · exact h.insertRow row ht happ hts (Or.inl (hidx ▸ hnone)) hlast
    · exact h.congr ht hlast

theorem Resumable.insertLogRecordAt {l l' : LogDB} {marked dbOk replace ok : Bool}
    (h : l.Resumable marked) {index term : ℕ} {sql : Sql} {fed : Option ℕ} {b : Backend}
    (hins : l.insertLogRecordAt dbOk index term sql 0 fed replace b = some (l', ok))
    (hfree : replace = true → l.lookup index = none ∨ l.lastApplied < index) :
    l'.Resumable marked := by
  rcases insertLogRecordAt_cases hins with ⟨-, rfl⟩ | ⟨-, hlast, -, -, -, hcase⟩
  · exact h
  · rcases hcase with ⟨-, hrep, row, hidx, -, -, -, ⟨hts, happ⟩, ht⟩ | ⟨-, -, -, ht⟩
    · refine h.insertRow row ht happ hts ?_ hlast
      rw [hidx]
      rcases hrep with hrep | hnone
      · exact hfree hrep
      · exact Or.inl hnone
    · exact h.congr ht hlast

theorem Resumable.deleteLogRecords {l : LogDB} {marked : Bool} (h : l.Resumable marked) (dbOk : Bool)
    {start : ℕ} (hstart : l.lastApplied < start) (b : Backend) :
    (l.deleteLogRecords dbOk start b).1.Resumable marked := by
  cases dbOk with
  | false => exact h
  | true =>
    obtain ⟨t, ht⟩ := l.deleteLogRecords_eq start b
    rw [ht]
    refine ⟨?_, ?_, ?_⟩
    · exact fun r hr happ => h.behind r (List.mem_filter.mp hr).1 happ
    · exact fun r hr hts => h.stamped r (List.mem_filter.mp hr).1 hts
    · intro hm
      obtain ⟨r, hr, hri, happ⟩ := h.last hm
      refine ⟨r, List.mem_filter.mpr ⟨hr, decide_eq_true ?_⟩, hri, happ⟩
      omega

theorem Resumable.purgeLog {l : LogDB} {marked : Bool} (h : l.Resumable marked)
    (hret : 1 ≤ l.logRetention) : l.purgeLog.1.Resumable marked := by
  have hsame := sameAhead_purgeLog hret h.behind
  refine ⟨hsame.behind', ?_, ?_⟩
  · exact fun r hr hts => h.stamped r (mem_of_mem_purgeLog hret hr) hts
  · intro hm
    obtain ⟨r, hr, hri, happ⟩ := h.last hm
    refine ⟨r, mem_purgeLog_of_last hret hr ?_, by rw [hri, hsame.lastApplied], happ⟩
    intro q hq hqa
    rw [hri]
    exact h.behind q hq hqa

/-- A record is consumed: it is marked if the `UPDATE` is executed. -/
theorem Resumable.applyLogRecord {l : LogDB} {marked : Bool} (h : l.Resumable marked) (dbOk : Bool)
    (now : ℕ) {b : Backend} {lr : LogDBRecord}
    (hg : l.selectRecord (l.lastApplied + 1) l.lastApplied b = some lr) (rc : SqlError) :
    (l.applyLogRecord dbOk now lr rc).1.Resumable
      (if (l.applyLogRecord dbOk now lr rc).1.lastApplied = lr.index then dbOk else marked) := by
  have hidx := selectRecord_index hg
  have hbehind : (l.applyLogRecord dbOk now lr rc).1.AppliedBehind :=
    h.behind.applyLogRecord dbOk now rc (by omega)
  unfold LogDB.applyLogRecord at hbehind ⊢
  split
  · rename_i hrc
    rw [if_pos hrc] at hbehind
    rw [if_pos rfl]
    cases dbOk with
    | false => exact ⟨hbehind, h.stamped, fun hm => absurd hm (by simp)⟩
    | true =>
      refine ⟨hbehind, ?_, fun _ => ?_⟩
      · intro r hr hts
        obtain ⟨q, hq, rfl⟩ := List.mem_map.mp hr
        split at hts
        · rename_i hq'
          rw [if_pos hq']
        · rename_i hq'
          rw [if_neg hq']
          exact h.stamped q hq hts
      · obtain ⟨f, hlook, -⟩ := lookup_of_selectRecord hg
        obtain ⟨c, hc, -⟩ := Option.map_eq_some_iff.mp hlook
        obtain ⟨hmem, hci⟩ := lookup_some hc
        refine ⟨_, List.mem_map_of_mem hmem, ?_, ?_⟩
        · split
          · exact hci.trans hidx.symm
          · exact hci.trans hidx.symm
        · -- a record with a timestamp is marked already
          split
          · rfl
          · rename_i hnot
            refine h.stamped c hmem ?_
            intro hts
            exact hnot ⟨hci.trans hidx.symm, hts⟩
  · rw [if_neg (by dsimp only; omega)]
    exact h

theorem Resumable.reportedLoop (b : Backend) (dbOk : Bool) (now : ℕ) (exec : ℕ → SqlError) (n : ℕ) :
    ∀ {l : LogDB} {marked : Bool}, l.Resumable marked →
      (LogDB.reportedLoop b dbOk now exec n l).1.Resumable
        (if (LogDB.reportedLoop b dbOk now exec n l).2.2.isEmpty then marked else dbOk) := by
  induction n with
  | zero => exact fun h => h
  | succ n ih =>
    intro l marked h
    rcases reportedLoop_succ b dbOk now exec n l with hstop | ⟨lr, l₁, hg, hl₁, hlast, hcase⟩
    · rw [hstop]
      exact h
    · have hrec : l₁.Resumable dbOk := by
        have hmark := h.applyLogRecord dbOk now hg (exec lr.index)
        rw [← hl₁, if_pos hlast] at hmark
        exact hmark
      have hrest := ih hrec
      rw [ite_self] at hrest
      rcases hcase with heq | heq
      · rw [heq]
        exact hrec
      · rw [heq]
        exact hrest

/-- **One operation** keeps the log ready for a restart. -/
theorem Resumable.step {a a' : Applier} {b : Backend} {op : Op} (h : a.db.Resumable a.marked)
    (hop : a.db.Promised op) (hf : a.db.Reported (b, op)) (hstep : a.step (b, op) = some a') :
    a'.db.Resumable a'.marked := by
  cases op with
  | insertLogRecord dbOk term sql ts fed =>
    obtain ⟨l, hl, rfl⟩ := Option.map_eq_some_iff.mp hstep
    obtain ⟨⟨l₁, o⟩, hins, rfl⟩ := Option.map_eq_some_iff.mp hl
    rw [show ts = 0 from hop] at hins
    exact h.insertLogRecord hins
  | insertLogRecordAt dbOk index term sql ts fed replace =>
    obtain ⟨l, hl, rfl⟩ := Option.map_eq_some_iff.mp hstep
    obtain ⟨⟨l₁, ok⟩, hins, rfl⟩ := Option.map_eq_some_iff.mp hl
    rw [hop.1] at hins
    exact h.insertLogRecordAt hins hop.2
  | deleteLogRecords dbOk start =>
    obtain rfl := Option.some.inj hstep
    exact h.deleteLogRecords dbOk hop b
  | applyLogRecords dbOk now exec commit =>
    obtain ⟨res, rfl, rfl⟩ := Applier.step_apply hf hstep
    exact Resumable.reportedLoop b dbOk now exec (commit - a.db.lastApplied) h
  | purgeLog =>
    obtain rfl := Option.some.inj hstep
    exact h.purgeLog hop
  | setupIndex => exact absurd hop (by simp [Promised, Running])

/-! ## Whole runs -/

/-- **The order of application.**  In every run whose calls of `apply_log_records` find their records
or are told that one is missing, the indexes consumed are those that follow the cursor of the start,
one after the other and each of them once, up to the cursor, and never beyond the commit indexes
passed.  A restart finds the cursor again, if the last record consumed has been marked as applied and
the records are inserted as the servers of a zone insert them. -/
theorem consumed_in_order (l : LogDB) :
    (∀ a, Reach Applier.step (fun a e => a.db.Running e.2 ∧ a.db.Reported e) (Applier.start l) a →
      l.lastApplied ≤ a.db.lastApplied ∧
        a.consumed = List.range' (l.lastApplied + 1) (a.db.lastApplied - l.lastApplied) ∧
        ∀ i ∈ a.consumed, ∃ c ∈ a.asked, i ≤ c) ∧
      (l.Resumable true →
        ∀ a, Reach Applier.step (fun a e => a.db.Promised e.2 ∧ a.db.Reported e)
            (Applier.start l) a → a.marked = true →
          ∀ b, (a.db.setupIndex b).1.lastApplied = a.db.lastApplied) := by
  constructor
  · intro a hrun
    have hord : InOrder l.lastApplied a :=
      hrun.inv (P := InOrder l.lastApplied) (InOrder.start l)
        (fun _ _ _ h hop hstep => h.step hop.1 hop.2 hstep)
    refine ⟨hord.le, hord.consumed, ?_⟩
    intro i hi
    rw [hord.consumed, List.mem_range'_1] at hi
    obtain ⟨c, hc, hle⟩ := hord.asked (by omega)
    exact ⟨c, hc, by omega⟩
  · intro hres a hrun hmarked b
    have hinv : a.db.Resumable a.marked :=
      hrun.inv (P := fun a => a.db.Resumable a.marked) hres
        (fun _ _ _ h hop hstep => h.step hop.1 hop.2 hstep)
    rw [hmarked] at hinv
    exact hinv.setupIndex b

/-- A leader's append and a record received at index 2; the first command fails with an SQL error,
the second one on the connection and then not. -/
def orderRun : List (Backend × Op) :=
  [({}, .insertLogRecord true 1 ['X'] 0 none),
    ({}, .insertLogRecordAt true 2 1 ['Y'] 0 none true), ({}, .purgeLog),
    ({}, .applyLogRecords true 7 (fun _ => .sql) 2),
    ({}, .applyLogRecords true 8 (fun _ => .connection) 2), ({}, .deleteLogRecords true 3),
    ({}, .applyLogRecords true 9 (fun _ => .success) 5)]

theorem consumed_orderRun :
    ∃ a, Reach Applier.step (fun a e => a.db.Promised e.2 ∧ a.db.Reported e)
        (Applier.start (construct [] 1 100000 true 1 ['0'])) a ∧ a.consumed = [1, 2] ∧
      (∀ i ∈ a.consumed, ∃ c ∈ a.asked, i ≤ c) ∧ a.db.setupIndex.1.lastApplied = 2 := by
  have hrun : ((runChecked Applier.step (fun a e => a.db.Promised e.2 ∧ a.db.Reported e)
      (Applier.start (construct [] 1 100000 true 1 ['0'])) orderRun).map
        (fun a => (a.consumed, a.marked, a.db.lastApplied))) = some ([1, 2], true, 2) := by
    decide +kernel
  obtain ⟨a, ha, heq⟩ := Option.map_eq_some_iff.mp hrun
  obtain ⟨hcons, heq⟩ := Prod.mk.inj heq
  obtain ⟨hmarked, hlast⟩ := Prod.mk.inj heq
  have hreach := reach_of_runChecked _ ha
  have hstart : (construct [] 1 100000 true 1 ['0']).Resumable true := by
    obtain ⟨l, ht, hl⟩ := construct_eq [] 1 100000 true 1 ['0']
    rw [hl]
    refine resumable_setupIndex ?_ ?_
    · rw [ht]
      decide
    · rw [ht]
      decide
  obtain ⟨horder, hrestart⟩ := consumed_in_order (construct [] 1 100000 true 1 ['0'])
  have hrunning := hreach.mono (fun a e hop => And.imp_left running_of_promised hop)
  refine ⟨a, hreach, hcons, (horder a hrunning).2.2, ?_⟩
  rw [hrestart hstart a hreach hmarked, hlast]

/-- Two records and a commit index beyond them, on SQLite: the query for the third record returns `0`
with a record that is not filled in, and the index in it is `0`. -/
def unfilledRun : List (Backend × Op) :=
  [({}, .insertLogRecord true 1 ['X'] 0 none), ({}, .insertLogRecord true 1 ['Y'] 0 none),
    ({ unfilled := [⟨0, 0, 0, 0, [], 0, none⟩] }, .applyLogRecords true 7 (fun _ => .success) 3)]

/-- The records `1` and `2` are consumed twice. -/
theorem consumed_twice_unfilledRun :
    ¬ ∀ l a, Reach Applier.step (fun a e => a.db.Running e.2) (Applier.start l) a →
      a.consumed.Nodup := by
  intro h
  have hrun : ((runChecked Applier.step (fun a e => a.db.Running e.2)
      (Applier.start (construct [] 1 100000 true 1 ['0'])) unfilledRun).map
        Applier.consumed) = some [1, 2, 0, 1, 2] := by
    decide
  obtain ⟨a, ha, hcons⟩ := Option.map_eq_some_iff.mp hrun
  have hnodup := h _ a (reach_of_runChecked _ ha)
  rw [hcons] at hnodup
  exact absurd hnodup (by decide)

end LogDB
