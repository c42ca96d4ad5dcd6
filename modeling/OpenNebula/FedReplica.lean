/-
# Replication of the federated log (`src/raft/FedReplicaManager.cc`)

The master zone of a federation sends its federated records to the slave zones.  For each slave
zone it runs a thread (`FedReplicaThread`) with a cursor: `last` is the last index the zone is known
to have, `next` the one to send.  A slave executes a record (`FedReplicaManager::apply_log_record`)
only if the record before it is the last one of its own federated log; otherwise it answers with
its last index, and the master sets the cursor to it.

The thread reads the log in two steps (`get_next_record`, `previous_federated`), waits for the
reply and then moves the cursor.  The slave holds `fed_mutex` from the comparison to the reply, and
`Handler` says how far this call has come.  Calls and replies are never removed from `net`, so they
may be lost, delayed, repeated and reordered.

`UINT64_MAX` is `none`, as in the log.
-/
import OpenNebula.LogDB
import OpenNebula.RaftManager

/-- The identifier of a zone. -/
abbrev ZoneId := ℕ

/-! ## The master -/

/-- `FedReplicaManager::ZoneServers`: the cursor of a slave zone. -/
structure ZoneServers where
  next : Option ℕ
  last : Option ℕ
  deriving DecidableEq, Repr

/-- The zones of `FedReplicaManager`. -/
abbrev FedReplicaManager := AList (fun _ : ZoneId => ZoneServers)

/-- The outcomes of `FedReplicaManager::get_next_record`: `0`, `-2` and `-1`. -/
inductive NextRecord where
  | record (lr : LogDBRecord)
  | upToDate
  | failed
  deriving DecidableEq, Repr

/-- The new zone of `add_zone` and `update_zones`. -/
def ZoneServers.construct (last : Option ℕ) : ZoneServers := ⟨last, none⟩

/-- The index that `get_next_record` is going to send. -/
def ZoneServers.advance (zs : ZoneServers) (db : LogDB) : Option ℕ :=
  let next := if zs.next = none then db.lastFederated else zs.next
  if zs.last = next then next.bind db.nextFederated else next

/-- `FedReplicaManager::get_next_record` for a zone. -/
def ZoneServers.getNextRecord (zs : ZoneServers) (db : LogDB) : ZoneServers × NextRecord :=
  let zs' := { zs with next := zs.advance db }
  match zs'.next with
  | none => (zs', .upToDate)
  | some i =>
    match db.previousFederated i with
    | none => (zs', .failed)
    | some prev =>
      match db.getLogRecord i prev with
      | none => (zs', .failed)
      | some lr => (zs', .record lr)

/-- `FedReplicaManager::replicate_success` for a zone. -/
def ZoneServers.replicateSuccess (zs : ZoneServers) (db : LogDB) : ZoneServers :=
  { last := zs.next, next := zs.next.bind db.nextFederated }

/-- `FedReplicaManager::replicate_failure` for a zone that has answered with `lastZone`. -/
def ZoneServers.replicateFailure (zs : ZoneServers) (db : LogDB) (lastZone : Option ℕ) :
    ZoneServers :=
  match lastZone with
  | some l => { last := some l, next := db.nextFederated l }
  | none => zs

namespace FedReplicaManager

/-- `int last_index = logdb->last_federated()`: the index as an `int`, and back to 64 bits. -/
def asInt (i : Option ℕ) : Option ℕ :=
  let j := i.getD LogDB.uint64Max % 2 ^ 32
  let k := if j < 2 ^ 31 then j else j + (2 ^ 64 - 2 ^ 32)
  if k = LogDB.uint64Max then none else some k

/-- `FedReplicaManager::add_zone`: `std::map::insert` keeps a zone that is there. -/
def addZone (m : FedReplicaManager) (db : LogDB) (z : ZoneId) : FedReplicaManager :=
  if z ∈ m then m else m.insert z (.construct (asInt db.lastFederated))

/-- `FedReplicaManager::delete_zone`. -/
def deleteZone (m : FedReplicaManager) (z : ZoneId) : FedReplicaManager := m.erase z

/-- `FedReplicaManager::update_zones` with the other zones of the zone pool. -/
def updateZones (db : LogDB) (zones : List ZoneId) : FedReplicaManager :=
  zones.foldl (fun m z => m.insert z (.construct db.lastFederated)) ∅

/-- Changes the cursor of a zone that is there. -/
def modify (m : FedReplicaManager) (z : ZoneId) (f : ZoneServers → ZoneServers) :
    FedReplicaManager :=
  match m.lookup z with
  | some zs => m.insert z (f zs)
  | none => m

/-- `FedReplicaManager::get_next_record`. -/
def getNextRecord (m : FedReplicaManager) (db : LogDB) (z : ZoneId) :
    FedReplicaManager × NextRecord :=
  match m.lookup z with
  | some zs => (m.insert z (zs.getNextRecord db).1, (zs.getNextRecord db).2)
  | none => (m, .failed)

end FedReplicaManager

/-! ## Messages -/

/-- The parameters of the call `one.zone.fedreplicate`. -/
structure FedParams where
  dst : ZoneId
  index : ℕ
  prev : Option ℕ
  sql : Sql
  deriving DecidableEq, Repr

/-- A call or its reply: the result and the index of the answer. -/
inductive FedMsg where
  | replicate (p : FedParams)
  | reply (p : FedParams) (success : Bool) (last : Option ℕ)
  deriving DecidableEq, Repr

/-- A `FedReplicaThread` between two critical sections. -/
inductive FedThread where
  | idle
  /-- `rpc_replicate_log`, after `get_next_record`. -/
  | record (lr : LogDBRecord)
  | wait (p : FedParams)
  | success
  | failure (last : Option ℕ)
  deriving DecidableEq, Repr

/-! ## A slave zone -/

/-- The call of `FedReplicaManager::apply_log_record` that holds `fed_mutex`, if there is one. -/
inductive Handler where
  | free
  /-- The previous record is the last one: before `exec_federated_wr`. -/
  | exec (p : FedParams)
  /-- `LogDB::_exec_wr` in solo mode: the command is executed. -/
  | insert (p : FedParams)
  | setApplied (p : FedParams)
  /-- `LogDB::replicate` on the leader of the slave zone. -/
  | wait (p : FedParams) (rindex : ℕ)
  deriving DecidableEq, Repr

/-- The server of a slave zone that answers the calls: it runs in solo mode or is the leader of
its zone. -/
structure Slave where
  logdb : LogDB
  solo : Bool
  handler : Handler
  /-- History variable: the indexes, in the log of the slave, of the records that
  `apply_log_record` has inserted. -/
  accepted : List ℕ
  /-- History variable: the federated records executed through `apply_log_record`. -/
  executed : List (ℕ × Sql)

/-- What the surroundings decide in a step of a slave. -/
structure SlaveEnv where
  dbOk : Bool
  now : ℕ
  exec : ℕ → SqlError
  leader : Bool
  term : ℕ
  /-- The result of the replication of a record in the slave zone. -/
  result : Bool

/-- Surroundings in which everything works. -/
def SlaveEnv.calm : SlaveEnv :=
  { dbOk := true, now := 1, exec := fun _ => .success, leader := true, term := 1, result := true }

/-- `ZoneAPI::replicate_fed_log`: the reply for the result of `apply_log_record`. -/
def fedReply (p : FedParams) (rc : Option ℕ) : FedMsg :=
  match rc with
  | some 0 => .reply p true (some p.index)
  | none => .reply p false (some p.index)
  | some last => .reply p false (some last)

namespace Slave

/-- The end of `apply_log_record`. -/
def finish (v : Slave) (p : FedParams) (rc : Option ℕ) : Slave × List FedMsg :=
  ({ v with handler := .free }, [fedReply p rc])

/-- Records that are applied; those of `apply_log_record` are executed through it. -/
def apply (v : Slave) (env : SlaveEnv) (commit : ℕ) : Slave × Bool :=
  let (db, ok, lrs) := v.logdb.applyLogRecords env.dbOk env.now env.exec commit
  let done := lrs.filter (fun lr => lr.index ∈ v.accepted)
  ({ v with
    logdb := db
    executed := v.executed ++ done.filterMap (fun lr => lr.fedIndex.map (fun f => (f, lr.sql))) }, ok)

/-- A call arrives: `ZoneAPI::replicate_fed_log` up to the comparison of `apply_log_record`.
`refused` stands for the checks on the caller and on the mode of the server. -/
def receive (v : Slave) (p : FedParams) (refused : Bool) : Option (Slave × List FedMsg) :=
  if refused || p.sql.isEmpty then some (v, [.reply p false none])
  else if v.handler = .free then
    if p.prev ≠ v.logdb.lastFederated then some (v.finish p v.logdb.lastFederated)
    else some ({ v with handler := .exec p }, [])
  else none

/-- A step of the call that holds `fed_mutex`. -/
def handlerStep (v : Slave) (env : SlaveEnv) : Option (Slave × List FedMsg) :=
  match v.handler with
  | .free => none
  | .exec p =>
    if v.solo then
      if env.exec p.index = .success then
        some ({ v with handler := .insert p, executed := v.executed ++ [(p.index, p.sql)] }, [])
      else some (v.finish p none)
    else if env.leader then
      match v.logdb.insertLogRecord env.dbOk env.term p.sql 0 (some p.index) with
      | none => none
      | some (_, none) => some (v.finish p none)
      | some (db, some i) =>
        some ({ v with
          logdb := db
          accepted := v.accepted ++ [i]
          handler := .wait p i }, [])
    else some (v.finish p none)
  | .insert p =>
    match v.logdb.insertLogRecord env.dbOk 0 p.sql env.now (some p.index) with
    | none => none
    -- the result of `insert_log_record` is not looked at
    | some (db, i) =>
      some ({ v with
        logdb := db
        accepted := v.accepted ++ i.toList
        handler := .setApplied p }, [])
  | .setApplied p =>
    some ({ v with logdb := { v.logdb with lastApplied := v.logdb.lastIndex } }.finish p (some 0))
  | .wait p i =>
    if env.result then
      let (v', ok) := v.apply env i
      some (v'.finish p (if ok then some 0 else none))
    else some (v.finish p none)

/-- Another thread of the slave writes to its own log. -/
def localWrite (v : Slave) (env : SlaveEnv) (sql : Sql) : Option Slave :=
  match v.logdb.insertLogRecord env.dbOk env.term sql (if v.solo then env.now else 0) none with
  | none => none
  | some (db, _) =>
    some { v with logdb := if v.solo then { db with lastApplied := db.lastIndex } else db }

end Slave

/-! ## The federation -/

/-- The replication of the federated log: the cursors and the threads of the servers of the master
zone, the slave zones and the messages ever sent. -/
structure Federation where
  frm : ServerId → FedReplicaManager
  thread : ServerId → ZoneId → FedThread
  slave : ZoneId → Slave
  net : List FedMsg

/-- Who moves, and what the surroundings decide. -/
inductive FedEvent where
  /-- The `FedReplicaThread` of a server for a zone; a reply, or `none` for a network error. -/
  | run (s : ServerId) (z : ZoneId) (reply : Option (Bool × Option ℕ))
  | addZone (s : ServerId) (z : ZoneId)
  | deleteZone (s : ServerId) (z : ZoneId)
  | updateZones (s : ServerId) (zones : List ZoneId)
  | receive (p : FedParams) (refused : Bool)
  | handler (z : ZoneId) (env : SlaveEnv)
  | localWrite (z : ZoneId) (env : SlaveEnv) (sql : Sql)
  /-- A thread of the slave applies records of its log, up to a commit index. -/
  | apply (z : ZoneId) (env : SlaveEnv) (commit : ℕ)

namespace Federation

/-- One step of the thread for a zone, on a server with the log `db`. -/
def threadStep (m : FedReplicaManager) (db : LogDB) (net : List FedMsg) (z : ZoneId)
    (reply : Option (Bool × Option ℕ)) :
    FedThread → Option (FedReplicaManager × FedThread × List FedMsg)
  | .idle =>
    match m.getNextRecord db z with
    | (m', .record lr) => some (m', .record lr, [])
    | (m', _) => some (m', .idle, [])
  | .record lr =>
    let p : FedParams :=
      { dst := z, index := lr.index, prev := db.previousFederated lr.index, sql := lr.sql }
    some (m, .wait p, [.replicate p])
  | .wait p =>
    match reply with
    | none => some (m, .idle, [])
    | some (success, last) =>
      if .reply p success last ∈ net then
        some (m, if success then .success else .failure last, [])
      else none
  | .success => some (m.modify z (fun zs => zs.replicateSuccess db), .idle, [])
  | .failure last => some (m.modify z (fun zs => zs.replicateFailure db last), .idle, [])

/-- Replaces the state of a slave and records what it sent. -/
def putSlave (φ : Federation) (z : ZoneId) (v : Slave) (sent : List FedMsg) : Federation :=
  { φ with slave := Function.update φ.slave z v, net := sent ++ φ.net }

/-- One step of the federation; `db s` is the log of the server `s` of the master zone. -/
def step (db : ServerId → LogDB) (φ : Federation) : FedEvent → Option Federation
  | .run s z reply =>
    match threadStep (φ.frm s) (db s) φ.net z reply (φ.thread s z) with
    | none => none
    | some (m, t, sent) =>
      some { φ with
        frm := Function.update φ.frm s m
        thread := Function.update φ.thread s (Function.update (φ.thread s) z t)
        net := sent ++ φ.net }
  | .addZone s z => some { φ with frm := Function.update φ.frm s ((φ.frm s).addZone (db s) z) }
  | .deleteZone s z => some { φ with frm := Function.update φ.frm s ((φ.frm s).deleteZone z) }
  | .updateZones s zones =>
    some { φ with frm := Function.update φ.frm s (FedReplicaManager.updateZones (db s) zones) }
  | .receive p refused =>
    if .replicate p ∈ φ.net then
      ((φ.slave p.dst).receive p refused).map (fun r => φ.putSlave p.dst r.1 r.2)
    else none
  | .handler z env => ((φ.slave z).handlerStep env).map (fun r => φ.putSlave z r.1 r.2)
  | .localWrite z env sql => ((φ.slave z).localWrite env sql).map (fun v => φ.putSlave z v [])
  | .apply z env commit =>
    -- a server in solo mode executes a command before it is in the log
    if (φ.slave z).solo then none
    else some (φ.putSlave z ((φ.slave z).apply env commit).1 [])

/-- The federation before any record is sent. -/
def init (frm : ServerId → FedReplicaManager) (log : ZoneId → LogDB) (solo : ZoneId → Bool) :
    Federation where
  frm := frm
  thread := fun _ _ => .idle
  slave := fun z =>
    { logdb := log z, solo := solo z, handler := .free, accepted := [], executed := [] }
  net := []

end Federation
