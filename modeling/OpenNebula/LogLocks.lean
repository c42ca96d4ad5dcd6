/-
# The lock of the log database (`src/sql/LogDB.cc`, `include/LogDB.h`)

The operations of `LogDB` take `_mutex` for as long as they run (`lock_guard`), and call private
functions of the class while they hold it.  One of these, `insert`, calls the public operation
`previous_federated` when the database does not execute the INSERT of a federated record, and so takes
the lock again.  This is the only way a thread locks itself (`selfLock_iff_of_run`).

Conventions of the embedding:

* A 64-bit number is a number below `2 ^ 64`, with the arithmetic of `uint64_t`.
* The answers of the database, of the library that packs the commands and of the Raft manager are not
  known: each of them is a question.  Messages to the log file are left out.
* The loop of `apply_log_records` is followed for a number of rounds; a run that is not at its end then is
  not looked at any further.
-/
import OpenNebula.LockProgram
import OpenNebula.LogDB

namespace LogLocks

open LockProgram

/-- A `uint64_t`. -/
abbrev U64 := Fin (2 ^ 64)

/-- `UINT64_MAX`. -/
def uint64Max : U64 := -1

/-- What a record that is loaded is used for (`LogDBRecord`). -/
structure LogRecord where
  index : U64
  term : ℕ
  sql : Sql

/-- The questions of an operation. -/
inductive Question where
  /-- `ssl_util::zlib_compress64` -/
  | compress (sql : Sql)
  /-- `db->escape_str` -/
  | escape (text : Sql)
  /-- `INSERT` or `REPLACE` of a row of the log -/
  | insertRow (index : U64) (term : ℕ) (text : Sql) (tstamp : ℕ) (fedIndex : U64) (replace : Bool)
  /-- the record at an index, with the one before it -/
  | selectRecord (index prevIndex : U64)
  /-- the highest index of the log, or of the records that are applied; `none` if the query fails -/
  | selectMax (applied : Bool)
  /-- `SELECT fed_index` of the federated records -/
  | selectFederated
  /-- `DELETE` from an index on -/
  | deleteFrom (start : U64)
  /-- `db->exec_ext` of the command of a record -/
  | execSql (sql : Sql)
  /-- `UPDATE logdb SET timestamp, applied` of a record -/
  | markApplied (index : U64)
  /-- the lowest and the highest index of the records that are not federated -/
  | selectBounds
  /-- the lowest of the last indexes to keep -/
  | selectMinIndex (federated : Bool) (logRetention : U64)
  /-- `DELETE` of the applied records below an index; `none` if it fails -/
  | deleteBelow (federated : Bool) (minIndex : Sql)
  /-- `db->exec_wr` of a command that is not logged -/
  | execWr (sql : Sql)
  /-- `Nebula::is_federation_enabled` -/
  | federationEnabled
  /-- `raftm->is_leader` -/
  | isLeader
  /-- `raftm->get_term` -/
  | getTerm
  /-- `raftm->replicate_allocate` -/
  | replicateAllocate (index : U64)
  /-- `raftm->replicate_log`, with the result of the request when it is complete -/
  | replicateLog (index : U64)

/-- The answers to a question. -/
abbrev Answer : Question → Type
  | .compress _ => Option Sql
  | .escape _ => Option Sql
  | .insertRow .. => Bool
  | .selectRecord .. => Option LogRecord
  | .selectMax _ => Option (Option U64)
  | .selectFederated => Finset U64
  | .deleteFrom _ => Bool
  | .execSql _ => SqlError
  | .markApplied _ => Bool
  | .selectBounds => List U64
  | .selectMinIndex .. => Sql
  | .deleteBelow .. => Option ℕ
  | .execWr _ => Bool
  | .federationEnabled => Bool
  | .isLeader => Bool
  | .getTerm => ℕ
  | .replicateAllocate _ => Unit
  | .replicateLog _ => Bool

/-- A program of a thread that works on the log. -/
abbrev Prog := LockProgram Question Answer

/-- A question of an operation. -/
abbrev question (q : Question) : Prog (Answer q) := query q

/-- The fields of `LogDB`. -/
structure LogFields where
  solo : Bool
  cache : Bool
  nextIndex : U64
  lastApplied : U64
  lastIndex : U64
  lastTerm : ℕ
  logRetention : U64
  fedLog : Finset U64

/-! ## Functions that do not take the lock -/

/-- `LogDB::get_log_record`. -/
def getLogRecord (index prevIndex : U64) : Prog (Option LogRecord) :=
  question (.selectRecord index (if index = 0 then 0 else prevIndex))

/-- `LogDB::build_federated_index`. -/
def buildFederatedIndex (l : LogFields) : Prog LogFields := do
  let fedLog ← question .selectFederated
  pure { l with fedLog := fedLog }

/-- `LogDB::apply_log_record`. -/
def applyLogRecord (l : LogFields) (lr : LogRecord) : Prog (LogFields × Bool) := do
  let rc ← question (.execSql lr.sql)
  if rc = .success ∨ rc = .sqlDupKey ∨ rc = .sql then do
    let _ ← question (.markApplied lr.index)
    pure ({ l with lastApplied := lr.index }, decide (rc ≠ .sql))
  else pure (l, false)

/-! ## Operations on the federated indexes -/

/-- `LogDB::last_federated`. -/
def lastFederated (l : LogFields) : Prog U64 :=
  guarded (pure (l.fedLog.max.getD uint64Max))

/-- `LogDB::previous_federated`. -/
def previousFederated (l : LogFields) (i : U64) : Prog U64 :=
  guarded (pure (if i ∈ l.fedLog then (l.fedLog.filter (· < i)).max.getD uint64Max else uint64Max))

/-- `LogDB::next_federated`. -/
def nextFederated (l : LogFields) (i : U64) : Prog U64 :=
  guarded (pure (if i ∈ l.fedLog then (l.fedLog.filter (i < ·)).min.getD uint64Max else uint64Max))

/-! ## Insertion -/

/-- The check for a record that is already there, after the statement of `LogDB::insert` failed. -/
def checkDuplicate (l : LogFields) (index fedIndex : U64) : Prog Bool :=
  if fedIndex = uint64Max then do
    let lr ← getLogRecord index (index - 1)
    pure lr.isSome
  else do
    let prevIndex ← previousFederated l index
    if prevIndex = uint64Max then pure false
    else do
      let lr ← getLogRecord index prevIndex
      pure lr.isSome

/-- `LogDB::insert`: whether the row is in the log. -/
def insert (l : LogFields) (index : U64) (term : ℕ) (sql : Sql) (tstamp : ℕ) (fedIndex : U64)
    (replace : Bool) : Prog Bool := do
  let zsql ← question (.compress sql)
  match (zsql : Option Sql) with
  | none => pure false
  | some zsql => do
    let sqlDb ← question (.escape zsql)
    match (sqlDb : Option Sql) with
    | none => pure false
    | some sqlDb => do
      let rc ← question (.insertRow index term sqlDb tstamp fedIndex replace)
      if rc = true then pure true else checkDuplicate l index fedIndex

/-- The replication request of a record that is going to be replicated. -/
def allocateRequest (l : LogFields) (timestamp : ℕ) : Prog Unit :=
  if timestamp = 0 then question (.replicateAllocate l.nextIndex) else pure ()

/-- `LogDB::insert_log_record` of a leader: the index of the record. -/
def insertLogRecord (l : LogFields) (term : ℕ) (sql : Sql) (timestamp : ℕ) (fedIndex : U64) :
    Prog (LogFields × U64) :=
  guarded do
    let index := l.nextIndex
    let fed := if fedIndex = 0 then index else fedIndex
    let rc ← insert l index term sql timestamp fed false
    if rc = true then do
      allocateRequest l timestamp
      pure ({ l with
        lastIndex := l.nextIndex
        lastTerm := term
        nextIndex := l.nextIndex + 1
        fedLog := if fed = uint64Max then l.fedLog else Insert.insert fed l.fedLog }, index)
    else pure (l, uint64Max)

/-- `LogDB::insert_log_record` of a follower. -/
def insertLogRecordAt (l : LogFields) (index : U64) (term : ℕ) (sql : Sql) (timestamp : ℕ)
    (fedIndex : U64) (replace : Bool) : Prog (LogFields × Bool) :=
  guarded do
    let rc ← insert l index term sql timestamp fedIndex replace
    if rc = true then
      let l := if index > l.lastIndex then
        { l with lastIndex := index, lastTerm := term, nextIndex := index + 1 } else l
      pure ({ l with
        fedLog := if fedIndex = uint64Max then l.fedLog else Insert.insert fedIndex l.fedLog }, true)
    else pure (l, false)

/-! ## Other operations -/

/-- `LogDB::setup_index`. -/
def setupIndex (l : LogFields) : Prog (LogFields × Bool) :=
  guarded do
    let last ← question (.selectMax false)
    let l := match (last : Option (Option U64)) with
      | some (some i) => { l with nextIndex := i + 1, lastIndex := i }
      | _ => l
    let applied ← question (.selectMax true)
    let l := match (last : Option (Option U64)), (applied : Option (Option U64)) with
      | some _, some i => { l with lastApplied := i.getD 0 }
      | _, _ => l
    let lr ← getLogRecord l.lastIndex (l.lastIndex - 1)
    let rc := Option.isSome (last : Option (Option U64)) &&
      Option.isSome (applied : Option (Option U64)) && lr.isSome
    let l := match lr with
      | some lr => if rc then { l with lastTerm := lr.term } else l
      | none => l
    let l ← buildFederatedIndex l
    pure (l, rc)

/-- `LogDB::get_last_record_index`. -/
def getLastRecordIndex (l : LogFields) : Prog (U64 × ℕ) := guarded (pure (l.lastIndex, l.lastTerm))

/-- `LogDB::delete_log_records`. -/
def deleteLogRecords (l : LogFields) (startIndex : U64) : Prog (LogFields × Bool) :=
  guarded do
    let rc ← question (.deleteFrom startIndex)
    if rc = true then do
      let l := { l with nextIndex := startIndex, lastIndex := startIndex - 1 }
      let lr ← getLogRecord l.lastIndex (l.lastIndex - 1)
      match lr with
      | some lr => pure ({ l with lastTerm := lr.term }, true)
      | none => pure (l, true)
    else pure (l, false)

/-- The loop of `LogDB::apply_log_records`, for a number of rounds. -/
def applyLoop (commitIndex : U64) : ℕ → LogFields → Prog (LogFields × Bool)
  | 0, _ => stop
  | rounds + 1, l =>
    if l.lastApplied < commitIndex then do
      let lr ← getLogRecord (l.lastApplied + 1) l.lastApplied
      match lr with
      | none => pure (l, false)
      | some lr => do
        let r ← applyLogRecord l lr
        if r.2 = true then applyLoop commitIndex rounds r.1 else pure r
    else pure (l, true)

/-- `LogDB::apply_log_records`. -/
def applyLogRecords (rounds : ℕ) (l : LogFields) (commitIndex : U64) : Prog (LogFields × Bool) :=
  guarded (applyLoop commitIndex rounds l)

/-- `LogDB::purge_log`: the number of records that are deleted. -/
def purgeLog (l : LogFields) : Prog (LogFields × ℕ) :=
  guarded do
    let _ ← question .selectBounds
    let minIdx ← question (.selectMinIndex false l.logRetention)
    let deleted ← question (.deleteBelow false minIdx)
    let rc := Option.getD (deleted : Option ℕ) 0
    let _ ← question .selectBounds
    if l.fedLog.card < l.logRetention.val then pure (l, rc)
    else do
      let minIdx ← question (.selectMinIndex true l.logRetention)
      let deleted ← question (.deleteBelow true minIdx)
      let l ← buildFederatedIndex l
      pure (l, rc + Option.getD (deleted : Option ℕ) 0)

/-- `LogDB::replicate`. -/
def replicate (rounds : ℕ) (l : LogFields) (rindex : U64) : Prog (LogFields × Bool) := do
  let result ← question (.replicateLog rindex)
  let leader ← question .isLeader
  if leader = true ∧ result = true then applyLogRecords rounds l rindex else pure (l, false)

/-- `LogDB::_exec_wr`. -/
def execWr (rounds : ℕ) (l : LogFields) (cmd : Sql) (now : ℕ) (federated : U64) :
    Prog (LogFields × Bool) :=
  if l.solo then do
    let rc ← question (.execWr cmd)
    if rc = true then do
      let fed ← question .federationEnabled
      if fed = true then do
        let r ← insertLogRecord l 0 cmd now federated
        guarded (pure ({ r.1 with lastApplied := r.1.lastIndex }, true))
      else pure (l, true)
    else pure (l, false)
  else if l.cache then pure (l, false)
  else do
    let leader ← question .isLeader
    if leader = true then do
      let term ← question .getTerm
      let r ← insertLogRecord l term cmd 0 federated
      if r.2 = uint64Max then pure (r.1, false) else replicate rounds r.1 r.2
    else pure (l, false)

/-! ## Operations -/

/-- The public operations of `LogDB` that work on the log. -/
inductive Operation where
  | setupIndex
  | insertLogRecord (term : ℕ) (sql : Sql) (timestamp : ℕ) (fedIndex : U64)
  | insertLogRecordAt (index : U64) (term : ℕ) (sql : Sql) (timestamp : ℕ) (fedIndex : U64)
      (replace : Bool)
  | deleteLogRecords (startIndex : U64)
  | applyLogRecords (commitIndex : U64)
  | purgeLog
  | lastFederated
  | previousFederated (i : U64)
  | nextFederated (i : U64)
  | getLastRecordIndex
  | replicate (rindex : U64)
  | execWr (cmd : Sql) (now : ℕ) (federated : U64)

/-- One operation, with the fields afterwards. -/
def exec (rounds : ℕ) (l : LogFields) : Operation → Prog LogFields
  | .setupIndex => do pure (← setupIndex l).1
  | .insertLogRecord term sql timestamp fedIndex => do
    pure (← insertLogRecord l term sql timestamp fedIndex).1
  | .insertLogRecordAt index term sql timestamp fedIndex replace => do
    pure (← insertLogRecordAt l index term sql timestamp fedIndex replace).1
  | .deleteLogRecords startIndex => do pure (← deleteLogRecords l startIndex).1
  | .applyLogRecords commitIndex => do pure (← applyLogRecords rounds l commitIndex).1
  | .purgeLog => do pure (← purgeLog l).1
  | .lastFederated => do
    let _ ← lastFederated l
    pure l
  | .previousFederated i => do
    let _ ← previousFederated l i
    pure l
  | .nextFederated i => do
    let _ ← nextFederated l i
    pure l
  | .getLastRecordIndex => do
    let _ ← getLastRecordIndex l
    pure l
  | .replicate rindex => do pure (← replicate rounds l rindex).1
  | .execWr cmd now federated => do pure (← execWr rounds l cmd now federated).1

/-- The operations of a thread, one after another. -/
def execAll (rounds : ℕ) : List Operation → LogFields → Prog LogFields
  | [], l => pure l
  | op :: ops, l => do execAll rounds ops (← exec rounds l op)

/-! ## Self-locks -/

/-- The database does not execute the INSERT of a federated record. -/
def FailedInsert : Event Question Answer → Prop
  | ⟨.insertRow _ _ _ _ fedIndex _, rc⟩ => (rc : Bool) = false ∧ fedIndex ≠ uint64Max
  | _ => False

variable (l : LogFields)

theorem exact_getLogRecord (held : Bool) (index prevIndex : U64) :
    Exact held FailedInsert (getLogRecord index prevIndex) :=
  Exact.query fun _ h => h

theorem exact_buildFederatedIndex (held : Bool) : Exact held FailedInsert (buildFederatedIndex l) := by
  unfold buildFederatedIndex
  refine Exact.bind (Exact.query fun _ h => h) fun fedLog => ?_
  exact Exact.pure held FailedInsert _

theorem exact_applyLogRecord (held : Bool) (lr : LogRecord) :
    Exact held FailedInsert (applyLogRecord l lr) := by
  unfold applyLogRecord
  refine Exact.bind (Exact.query fun _ h => h) fun rc => ?_
  split_ifs
  · refine Exact.bind (Exact.query fun _ h => h) fun _ => ?_
    exact Exact.pure held FailedInsert _
  · exact Exact.pure held FailedInsert _

/-- The check after an INSERT that failed: the lock is taken a second time for a federated record, and
for this one only. -/
theorem checkDuplicate_cases (index fedIndex : U64) :
    (fedIndex = uint64Max → Exact true FailedInsert (checkDuplicate l index fedIndex)) ∧
      (fedIndex ≠ uint64Max →
        ∀ t o, Runs true (checkDuplicate l index fedIndex) t o → o = .selfLock) := by
  unfold checkDuplicate
  constructor
  · intro hfed
    rw [if_pos hfed]
    refine Exact.bind (exact_getLogRecord true _ _) fun lr => ?_
    exact Exact.pure true FailedInsert _
  · intro hfed t o h
    rw [if_neg hfed] at h
    exact runs_guarded_held h

/-- **The insertion of a row** locks the thread exactly when the INSERT of a federated record fails. -/
theorem exact_insert (index : U64) (term : ℕ) (sql : Sql) (tstamp : ℕ) (fedIndex : U64)
    (replace : Bool) :
    Exact true FailedInsert (insert l index term sql tstamp fedIndex replace) := by
  obtain ⟨hlocal, hfederated⟩ := checkDuplicate_cases l index fedIndex
  unfold insert
  refine Exact.bind (Exact.query fun _ h => h) fun zsql => ?_
  cases zsql with
  | none => exact Exact.pure true FailedInsert _
  | some zsql =>
    refine Exact.bind (Exact.query fun _ h => h) fun sqlDb => ?_
    cases sqlDb with
    | none => exact Exact.pure true FailedInsert _
    | some sqlDb =>
      refine Exact.query_bind (fun rc hgood => ?_) fun rc hbad => ?_
      · by_cases hrc : rc = true
        · rw [if_pos hrc]
          exact Exact.pure true FailedInsert _
        · rw [if_neg hrc]
          refine hlocal ?_
          by_contra hfed
          exact hgood ⟨Bool.eq_false_of_not_eq_true hrc, hfed⟩
      · have hrc : ¬ rc = true := by
          rw [show rc = false from hbad.1]
          exact Bool.false_ne_true
        rw [if_neg hrc]
        exact hfederated hbad.2

theorem exact_insertLogRecord (term : ℕ) (sql : Sql) (timestamp : ℕ) (fedIndex : U64) :
    Exact false FailedInsert (insertLogRecord l term sql timestamp fedIndex) := by
  refine Exact.guarded ?_
  refine Exact.bind (exact_insert l _ _ _ _ _ _) fun rc => ?_
  by_cases hrc : rc = true
  · rw [if_pos hrc]
    refine Exact.bind ?_ fun _ => Exact.pure true FailedInsert _
    unfold allocateRequest
    split_ifs
    · exact Exact.query fun _ h => h
    · exact Exact.pure true FailedInsert _
  · rw [if_neg hrc]
    exact Exact.pure true FailedInsert _

theorem exact_insertLogRecordAt (index : U64) (term : ℕ) (sql : Sql) (timestamp : ℕ) (fedIndex : U64)
    (replace : Bool) :
    Exact false FailedInsert (insertLogRecordAt l index term sql timestamp fedIndex replace) := by
  refine Exact.guarded ?_
  refine Exact.bind (exact_insert l _ _ _ _ _ _) fun rc => ?_
  by_cases hrc : rc = true
  · rw [if_pos hrc]
    exact Exact.pure true FailedInsert _
  · rw [if_neg hrc]
    exact Exact.pure true FailedInsert _

theorem exact_setupIndex : Exact false FailedInsert (setupIndex l) := by
  refine Exact.guarded ?_
  refine Exact.bind (Exact.query fun _ h => h) fun last => ?_
  refine Exact.bind (Exact.query fun _ h => h) fun applied => ?_
  refine Exact.bind (exact_getLogRecord true _ _) fun lr => ?_
  refine Exact.bind (exact_buildFederatedIndex _ true) fun _ => ?_
  exact Exact.pure true FailedInsert _

theorem exact_deleteLogRecords (startIndex : U64) :
    Exact false FailedInsert (deleteLogRecords l startIndex) := by
  refine Exact.guarded ?_
  refine Exact.bind (Exact.query fun _ h => h) fun rc => ?_
  split_ifs
  · refine Exact.bind (exact_getLogRecord true _ _) fun lr => ?_
    cases lr with
    | none => exact Exact.pure true FailedInsert _
    | some lr => exact Exact.pure true FailedInsert _
  · exact Exact.pure true FailedInsert _

theorem exact_applyLoop (commitIndex : U64) (rounds : ℕ) :
    ∀ l, Exact true FailedInsert (applyLoop commitIndex rounds l) := by
  induction rounds with
  | zero => exact fun _ => Exact.stop true FailedInsert
  | succ rounds ih =>
    intro l
    rw [applyLoop]
    split_ifs
    · refine Exact.bind (exact_getLogRecord true _ _) fun lr => ?_
      cases lr with
      | none => exact Exact.pure true FailedInsert _
      | some lr =>
        refine Exact.bind (exact_applyLogRecord l true lr) fun r => ?_
        split_ifs
        · exact ih r.1
        · exact Exact.pure true FailedInsert _
    · exact Exact.pure true FailedInsert _

theorem exact_applyLogRecords (rounds : ℕ) (commitIndex : U64) :
    Exact false FailedInsert (applyLogRecords rounds l commitIndex) :=
  Exact.guarded (exact_applyLoop commitIndex rounds l)

theorem exact_purgeLog : Exact false FailedInsert (purgeLog l) := by
  refine Exact.guarded ?_
  refine Exact.bind (Exact.query fun _ h => h) fun _ => ?_
  refine Exact.bind (Exact.query fun _ h => h) fun minIdx => ?_
  refine Exact.bind (Exact.query fun _ h => h) fun deleted => ?_
  refine Exact.bind (Exact.query fun _ h => h) fun _ => ?_
  split_ifs
  · exact Exact.pure true FailedInsert _
  · refine Exact.bind (Exact.query fun _ h => h) fun minIdx => ?_
    refine Exact.bind (Exact.query fun _ h => h) fun deleted => ?_
    refine Exact.bind (exact_buildFederatedIndex _ true) fun _ => ?_
    exact Exact.pure true FailedInsert _

theorem exact_replicate (rounds : ℕ) (rindex : U64) :
    Exact false FailedInsert (replicate rounds l rindex) := by
  unfold replicate
  refine Exact.bind (Exact.query fun _ h => h) fun result => ?_
  refine Exact.bind (Exact.query fun _ h => h) fun leader => ?_
  split_ifs
  · exact exact_applyLogRecords l rounds rindex
  · exact Exact.pure false FailedInsert _

theorem exact_execWr (rounds : ℕ) (cmd : Sql) (now : ℕ) (federated : U64) :
    Exact false FailedInsert (execWr rounds l cmd now federated) := by
  unfold execWr
  split_ifs
  · -- In solo mode the lock is free again before it is taken for the last index.
    refine Exact.bind (Exact.query fun _ h => h) fun rc => ?_
    split_ifs
    · refine Exact.bind (Exact.query fun _ h => h) fun fed => ?_
      split_ifs
      · refine Exact.bind (exact_insertLogRecord l _ _ _ _) fun r => ?_
        exact Exact.guarded (Exact.pure true FailedInsert _)
      · exact Exact.pure false FailedInsert _
    · exact Exact.pure false FailedInsert _
  · exact Exact.pure false FailedInsert _
  · refine Exact.bind (Exact.query fun _ h => h) fun leader => ?_
    split_ifs
    · refine Exact.bind (Exact.query fun _ h => h) fun term => ?_
      refine Exact.bind (exact_insertLogRecord l _ _ _ _) fun r => ?_
      split_ifs
      · exact Exact.pure false FailedInsert _
      · exact exact_replicate r.1 rounds r.2
    · exact Exact.pure false FailedInsert _

/-- **One operation** locks its thread exactly when the INSERT of a federated record fails. -/
theorem exact_exec (rounds : ℕ) (op : Operation) : Exact false FailedInsert (exec rounds l op) := by
  have hpure : ∀ {α : Type} (p : Prog α) (f : α → LogFields), Exact false FailedInsert p →
      Exact false FailedInsert (p >>= fun a => pure (f a)) :=
    fun p f hp => Exact.bind hp fun a => Exact.pure false FailedInsert (f a)
  have hguarded : ∀ {α : Type} (a : α), Exact false FailedInsert (guarded (pure a) : Prog α) :=
    fun a => Exact.guarded (Exact.pure true FailedInsert a)
  cases op with
  | setupIndex => exact hpure _ Prod.fst (exact_setupIndex l)
  | insertLogRecord term sql timestamp fedIndex =>
    exact hpure _ Prod.fst (exact_insertLogRecord l term sql timestamp fedIndex)
  | insertLogRecordAt index term sql timestamp fedIndex replace =>
    exact hpure _ Prod.fst (exact_insertLogRecordAt l index term sql timestamp fedIndex replace)
  | deleteLogRecords startIndex => exact hpure _ Prod.fst (exact_deleteLogRecords l startIndex)
  | applyLogRecords commitIndex => exact hpure _ Prod.fst (exact_applyLogRecords l rounds commitIndex)
  | purgeLog => exact hpure _ Prod.fst (exact_purgeLog l)
  | lastFederated => exact hpure _ (fun _ => l) (hguarded _)
  | previousFederated i => exact hpure _ (fun _ => l) (hguarded _)
  | nextFederated i => exact hpure _ (fun _ => l) (hguarded _)
  | getLastRecordIndex => exact hpure _ (fun _ => l) (hguarded _)
  | replicate rindex => exact hpure _ Prod.fst (exact_replicate l rounds rindex)
  | execWr cmd now federated => exact hpure _ Prod.fst (exact_execWr l rounds cmd now federated)

theorem exact_execAll (rounds : ℕ) (ops : List Operation) :
    ∀ l, Exact false FailedInsert (execAll rounds ops l) := by
  induction ops with
  | nil => exact fun l => Exact.pure false FailedInsert l
  | cons op ops ih => exact fun l => Exact.bind (exact_exec l rounds op) ih

/-- **When a thread locks itself.**  In every run of the operations of a thread, with any answers of the
database, the thread takes the lock while it holds it exactly when the database did not execute the
INSERT of a federated record; when the operations end the lock is free. -/
theorem selfLock_iff_of_run (rounds : ℕ) (ops : List Operation) (l : LogFields)
    {t : List (Event Question Answer)} {o : Outcome LogFields}
    (h : Runs false (execAll rounds ops l) t o) :
    (o = .selfLock ↔ ∃ e ∈ t, FailedInsert e) ∧ ∀ held l', o = .done held l' → held = false := by
  have hexact := exact_execAll rounds ops l
  refine ⟨hexact.selfLock_iff t o h, fun held l' ho => ?_⟩
  rw [ho] at h
  exact hexact.held_eq t held l' h

/-- A follower with the records 0 to 4, of which 1 and 3 are federated. -/
def follower : LogFields where
  solo := false
  cache := false
  nextIndex := 5
  lastApplied := 4
  lastIndex := 4
  lastTerm := 1
  logRetention := 100
  fedLog := {1, 3}

/-- The follower with the record 5. -/
def followed : LogFields :=
  { follower with nextIndex := 6, lastIndex := 5, fedLog := {5, 1, 3} }

/-- The federated record 5. -/
def fifth : Operation := .insertLogRecordAt 5 1 "S".toList 0 5 false

/-- The answers up to the INSERT of the record 5. -/
def fifthEvents (rc : Bool) : List (Event Question Answer) :=
  [⟨.compress "S".toList, (some "Z".toList : Option Sql)⟩,
    ⟨.escape "Z".toList, (some "E".toList : Option Sql)⟩,
    ⟨.insertRow 5 1 "E".toList 0 5 false, rc⟩]

theorem free_follower :
    Runs false (execAll 0 [fifth, .lastFederated] follower) (fifthEvents true) (.done false followed) ∧
      ∀ e ∈ fifthEvents true, ¬ FailedInsert e := by
  have hrun : Runs false (execAll 0 [fifth, .lastFederated] follower) (fifthEvents true)
      (.done false followed) :=
    Runs.lock (Runs.ask _ (Runs.ask _ (Runs.ask _ (Runs.unlock (Runs.lock (Runs.unlock
      (Runs.ret false followed)))))))
  have hiff := (selfLock_iff_of_run 0 [fifth, .lastFederated] follower hrun).1
  refine ⟨hrun, fun e he hbad => ?_⟩
  exact absurd (hiff.mpr ⟨e, he, hbad⟩) (by simp)

/-- The thread locks itself when the record 5 cannot be inserted. -/
theorem not_free : Runs false (execAll 0 [fifth] follower) (fifthEvents false) .selfLock :=
  Runs.lock (Runs.ask _ (Runs.ask _ (Runs.ask _ (Runs.selfLock _))))

end LogLocks
