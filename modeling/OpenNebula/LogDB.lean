/-
# The replicated database log (`src/sql/LogDB.cc`, `include/LogDB.h`)

`LogDB` keeps the log of SQL commands in the table `logdb` and, next to it, five cached
values: `next_index`, `last_applied`, `last_index`, `last_term` and the set `fed_log` of
federated indexes.  This file has the table, the cached values and every operation of the
class that reads or writes them.

Conventions of the embedding:

* Log indexes and terms are natural numbers.  The subtraction `index - 1` of the source
  wraps around at `0` and is `pred64`; no addition is ever made near `UINT64_MAX`.
* `UINT64_MAX` in a federated index means "not federated" or "none" and is `none` here.
* The answers of the database that the code reacts to are arguments: `dbOk` says whether a
  statement of the operation that writes was executed, `exec` gives the outcome of the SQL
  command of each log record, `now` is `time(0)`.  `SELECT` statements succeed.
* What is read when a `SELECT` finds no row, and when a federated index is `UINT64_MAX`,
  depends on the database: the argument `b : Backend`.
* An operation that the calling thread never returns from is `none`: `insert` calls
  `previous_federated`, which locks the mutex that the caller of `insert` holds.
-/
import Mathlib

/-- The text of an SQL command. -/
abbrev Sql := List Char

/-- A row of the table `logdb`
(`log_index, term, sqlcmd, timestamp, fed_index, applied`). -/
structure LogRow where
  index : ℕ
  term : ℕ
  sql : Sql
  timestamp : ℕ
  fedIndex : Option ℕ
  applied : Bool
  deriving DecidableEq, Repr

/-- A log record as `LogDBRecord::select_cb` loads it: a row together with the index and
the term of the row before it. -/
structure LogDBRecord where
  index : ℕ
  prevIndex : ℕ
  term : ℕ
  prevTerm : ℕ
  sql : Sql
  timestamp : ℕ
  fedIndex : Option ℕ
  deriving DecidableEq, Repr

/-- The outcomes of an SQL command (`SqlDB::SqlError`). -/
inductive SqlError where
  | success
  | internal
  | connection
  | sql
  | sqlDupKey
  deriving DecidableEq, Repr

/-- What the database answers to the queries of one operation. -/
structure Backend where
  /-- The records, not filled in, with which the queries that find no row return `0`, one after
  the other: SQLite takes `sqlite3_changes`, the rows of an earlier statement, for the rows
  that the query affected.  When there is none (left), the query returns `-1`. -/
  unfilled : List LogDBRecord := []
  /-- The federated index `UINT64_MAX` as it is read back: SQLite has no such integer, it keeps
  a `REAL`, and of its text `1.84467440737096e+19` the `1` is read. -/
  unfederated : Option ℕ := none
  deriving DecidableEq

/-- The log database: the table, the cached values and the settings. -/
structure LogDB where
  table : List LogRow
  nextIndex : ℕ
  lastApplied : ℕ
  lastIndex : ℕ
  lastTerm : ℕ
  fedLog : Finset ℕ
  logRetention : ℕ
  limitPurge : ℕ
  /-- `db->supports(SqlDB::SqlFeature::LIMIT)` -/
  limit : Bool
  deriving DecidableEq

namespace LogDB

/-- `UINT64_MAX`. -/
def uint64Max : ℕ := 2 ^ 64 - 1

/-- `i - 1` on 64-bit unsigned integers. -/
def pred64 (i : ℕ) : ℕ := if i = 0 then uint64Max else i - 1

/-! ## Queries -/

/-- The row with a given primary key. -/
def lookup (l : LogDB) (i : ℕ) : Option LogRow := l.table.find? (fun r => r.index = i)

/-- The term and the command of the record at an index. -/
def entry (l : LogDB) (i : ℕ) : Option (ℕ × Sql) := (l.lookup i).map (fun r => (r.term, r.sql))

/-- `SELECT MAX(log_index) FROM logdb WHERE p`: `none` is SQL's `NULL`. -/
def maxIndex (l : LogDB) (p : LogRow → Bool) : Option ℕ :=
  ((l.table.filter p).map LogRow.index).max?

/-- The query of `get_log_record`: the join of the row at `index` with the row at `prev`. -/
def selectRecord (l : LogDB) (index prev : ℕ) (b : Backend := {}) : Option LogDBRecord :=
  match l.lookup index, l.lookup (if index = 0 then 0 else prev) with
  | some c, some p =>
    some { index := c.index, prevIndex := p.index, term := c.term, prevTerm := p.term,
           sql := c.sql, timestamp := c.timestamp, fedIndex := c.fedIndex.or b.unfederated }
  | _, _ => none

/-- `LogDB::get_log_record`.  A record that is not filled in has the empty command. -/
def getLogRecord (l : LogDB) (index prev : ℕ) (b : Backend := {}) : Option LogDBRecord :=
  (l.selectRecord index prev b).or (b.unfilled.head?.map (fun lr => { lr with sql := [] }))

/-- `LogDB::build_federated_index`: the federated indexes of the table. -/
def federated (t : List LogRow) : Finset ℕ := (t.filterMap LogRow.fedIndex).toFinset

/-- `LogDB::setup_index`: reloads the cached values.  The result has the values of the two
reference parameters `_last_applied` and `_last_index`. -/
def setupIndex (l : LogDB) (b : Backend := {}) : LogDB × ℕ × ℕ :=
  let last := l.maxIndex (fun _ => true)
  let applied := l.maxIndex LogRow.applied
  let l₁ := match last with
    | some i => { l with nextIndex := i + 1, lastIndex := i }
    | none => l
  let l₂ := match last, applied with
    | some _, some a => { l₁ with lastApplied := a }
    | _, _ => l₁
  let l₃ := match last, applied, l₂.getLogRecord l₂.lastIndex (pred64 l₂.lastIndex) b with
    | some _, some _, some lr => { l₂ with lastTerm := lr.term }
    | _, _, _ => l₂
  ({ l₃ with fedLog := federated l.table }, applied.getD 0, last.getD uint64Max)

/-! ## Insertion -/

/-- `LogDB::insert`: `INSERT` or `REPLACE` of a row, with the check for a record that is
already there when the statement fails.  The check of a federated record locks the mutex
twice. -/
def insert (l : LogDB) (dbOk : Bool) (index term : ℕ) (sql : Sql) (tstamp : ℕ)
    (fedIndex : Option ℕ) (replace : Bool) (b : Backend := {}) : Option (LogDB × Bool) :=
  let row : LogRow :=
    { index := index, term := term, sql := sql, timestamp := tstamp, fedIndex := fedIndex,
      applied := tstamp != 0 }
  if dbOk && (replace || (l.lookup index).isNone) then
    some ({ l with table := l.table.filter (fun r => r.index ≠ index) ++ [row] }, true)
  else
    match fedIndex with
    | some _ => none
    | none => some (l, (l.getLogRecord index (pred64 index) b).isSome)

/-- `LogDB::insert_log_record(term, sql, timestamp, fed_index)`: the leader's append at
`next_index`.  The second component is the index, `none` for `UINT64_MAX`. -/
def insertLogRecord (l : LogDB) (dbOk : Bool) (term : ℕ) (sql : Sql) (timestamp : ℕ)
    (fedIndex : Option ℕ) (b : Backend := {}) : Option (LogDB × Option ℕ) :=
  let index := l.nextIndex
  -- `fed_index == 0` asks for a new federated index, the index of the record itself
  let fed := if fedIndex = some 0 then some index else fedIndex
  match l.insert dbOk index term sql timestamp fed false b with
  | none => none
  | some (_, false) => some (l, none)
  | some (l', true) =>
    some ({ l' with
      lastIndex := l.nextIndex
      lastTerm := term
      nextIndex := l.nextIndex + 1
      fedLog := match fed with
        | some f => Insert.insert f l.fedLog
        | none => l.fedLog }, some index)

/-- `LogDB::insert_log_record(index, term, sql, timestamp, fed_index, replace)`: the
insertion of a record received from the leader. -/
def insertLogRecordAt (l : LogDB) (dbOk : Bool) (index term : ℕ) (sql : Sql) (timestamp : ℕ)
    (fedIndex : Option ℕ) (replace : Bool) (b : Backend := {}) : Option (LogDB × Bool) :=
  match l.insert dbOk index term sql timestamp fedIndex replace b with
  | none => none
  | some (_, false) => some (l, false)
  | some (l', true) =>
    let l₁ := if l.lastIndex < index then
        { l' with lastIndex := index, lastTerm := term, nextIndex := index + 1 }
      else l'
    some ({ l₁ with
      fedLog := match fedIndex with
        | some f => Insert.insert f l.fedLog
        | none => l.fedLog }, true)

/-! ## Deletion -/

/-- `LogDB::delete_log_records`: deletes the record at `start` and all that follow. -/
def deleteLogRecords (l : LogDB) (dbOk : Bool) (start : ℕ) (b : Backend := {}) : LogDB × Bool :=
  if dbOk then
    let l₁ := { l with
      table := l.table.filter (fun r => r.index < start)
      nextIndex := start
      lastIndex := pred64 start }
    match l₁.getLogRecord l₁.lastIndex (pred64 l₁.lastIndex) b with
    | some lr => ({ l₁ with lastTerm := lr.term }, true)
    | none => (l₁, true)
  else (l, false)

/-! ## Application -/

/-- `LogDB::apply_log_record`: executes the command of a record and marks it as applied.
A command that fails with an SQL error counts as applied, but is reported. -/
def applyLogRecord (l : LogDB) (dbOk : Bool) (now : ℕ) (lr : LogDBRecord) (rc : SqlError) :
    LogDB × Bool :=
  if rc = .success ∨ rc = .sqlDupKey ∨ rc = .sql then
    ({ l with
      table := if dbOk then
          l.table.map (fun r => if r.index = lr.index ∧ r.timestamp = 0 then
            { r with timestamp := now, applied := true } else r)
        else l.table
      lastApplied := lr.index }, decide (rc ≠ .sql))
  else (l, false)

/-- The loop of `LogDB::apply_log_records`, `n` records away from the commit index; `missing`
is what follows when the next record is not there.  The last component lists the records whose
command was executed. -/
def applyLoop (b : Backend) (dbOk : Bool) (now : ℕ) (exec : ℕ → SqlError)
    (missing : LogDB → LogDB × Bool × List LogDBRecord) :
    ℕ → LogDB → LogDB × Bool × List LogDBRecord
  | 0, l => (l, true, [])
  | n + 1, l =>
    match l.selectRecord (l.lastApplied + 1) l.lastApplied b with
    | none => missing l
    | some lr =>
      let (l', ok) := l.applyLogRecord dbOk now lr (exec lr.index)
      let done := if l'.lastApplied = lr.index then [lr] else []
      if ok then
        let (l'', ok', lrs) := applyLoop b dbOk now exec missing n l'
        (l'', ok', done ++ lrs)
      else (l', false, done)

/-- What follows when the next record is not there.  A record that is not filled in has the empty
command, SQLite executes it with success, and the loop goes on from the index in the record. -/
def applyMissing (b : Backend) (dbOk : Bool) (now : ℕ) (exec : ℕ → SqlError) (commit : ℕ) :
    List LogDBRecord → LogDB → LogDB × Bool × List LogDBRecord
  | [], l => (l, false, [])
  | lr :: unfilled, l =>
    let (l', _) := l.applyLogRecord dbOk now { lr with sql := [] } .success
    let (l'', ok, lrs) := applyLoop b dbOk now exec
      (applyMissing b dbOk now exec commit unfilled) (commit - l'.lastApplied) l'
    (l'', ok, { lr with sql := [] } :: lrs)

/-- `LogDB::apply_log_records`: applies the records up to `commit`. -/
def applyLogRecords (l : LogDB) (dbOk : Bool) (now : ℕ) (exec : ℕ → SqlError) (commit : ℕ)
    (b : Backend := {}) : LogDB × Bool × List LogDBRecord :=
  applyLoop b dbOk now exec (applyMissing b dbOk now exec commit b.unfilled)
    (commit - l.lastApplied) l

/-! ## Purge -/

/-- `SELECT MIN(i.log_index) FROM (SELECT log_index FROM logdb WHERE p AND applied = '1'
ORDER BY log_index DESC LIMIT log_retention) AS i`. -/
def minRetained (l : LogDB) (p : LogRow → Bool) : Option ℕ :=
  ((((l.table.filter (fun r => p r && r.applied)).map LogRow.index).mergeSort
    (fun a b => b ≤ a)).take l.logRetention).min?

/-- `DELETE FROM logdb WHERE applied = '1' AND p AND log_index < min [LIMIT limit_purge]`.
Without a value for `min` the statement is not valid SQL and deletes nothing. -/
def purgeRows (l : LogDB) (p : LogRow → Bool) (min : Option ℕ) : LogDB × ℕ :=
  match min with
  | none => (l, 0)
  | some m =>
    let rows := l.table.filter (fun r => r.applied && p r && decide (r.index < m))
    let victims := if l.limit then rows.take l.limitPurge else rows
    ({ l with table := l.table.filter (fun r => r ∉ victims) }, victims.length)

/-- `LogDB::purge_log`: deletes old applied records, first those that are not federated,
then the federated ones.  The result is the number of records deleted. -/
def purgeLog (l : LogDB) : LogDB × ℕ :=
  let min := l.minRetained (fun r => r.fedIndex.isNone)
  let (l₁, rc) := l.purgeRows (fun r => r.fedIndex.isNone) min
  if l₁.fedLog.card < l.logRetention then (l₁, rc)
  else
    -- the variable of the first query keeps its value when the second one finds no row
    let min' := (l₁.minRetained (fun r => r.fedIndex.isSome)).or min
    let (l₂, frc) := l₁.purgeRows (fun r => r.fedIndex.isSome) min'
    ({ l₂ with fedLog := federated l₂.table }, rc + frc)

/-! ## The federated log -/

/-- `LogDB::last_federated`. -/
def lastFederated (l : LogDB) : Option ℕ :=
  if h : l.fedLog.Nonempty then some (l.fedLog.max' h) else none

/-- `LogDB::previous_federated`: the federated index before `i`, if `i` has one. -/
def previousFederated (l : LogDB) (i : ℕ) : Option ℕ :=
  if h : (l.fedLog.filter (fun f => i ∈ l.fedLog ∧ f < i)).Nonempty then
    some (Finset.max' _ h) else none

/-- `LogDB::next_federated`: the federated index after `i`, if `i` has one. -/
def nextFederated (l : LogDB) (i : ℕ) : Option ℕ :=
  if h : (l.fedLog.filter (fun f => i ∈ l.fedLog ∧ i < f)).Nonempty then
    some (Finset.min' _ h) else none

/-! ## Construction -/

/-- The constructor on an existing table: the record `0` is inserted if it is missing and
the cached values are loaded.  `text` is the time that the source writes as its command.  The
connection is new and has changed no row, so a query that finds no row returns `-1`. -/
def construct (t : List LogRow) (retention purge : ℕ) (limit : Bool) (now : ℕ) (text : Sql) :
    LogDB :=
  let l : LogDB :=
    { table := t, nextIndex := 0, lastApplied := uint64Max, lastIndex := uint64Max,
      lastTerm := 2 ^ 32 - 1, fedLog := ∅, logRetention := retention, limitPurge := purge,
      limit := limit }
  let l₁ := match l.getLogRecord 0 0 with
    | some _ => l
    | none =>
      match l.insertLogRecordAt true 0 0 text now none false with
      | some (l', _) => l'
      | none => l
  l₁.setupIndex.1

end LogDB
