/-
# The zone as a system of threads and messages

The servers of a zone run many threads: the timer thread that holds elections
(`RaftManager::timer_action`, `request_vote`, `leader`), one handler for each request that
arrives (`ZoneAPI::vote`, `ZoneAPI::replicate_log`), the replica and heartbeat threads of a
leader (`ReplicaThread.cc`), the writers (`LogDB::_exec_wr`, `LogDB::replicate`) and the
requests that add a server or reset its index.  Each of them takes the locks of
`RaftManager` and `LogDB` several times and releases them in between.

A `Thread` is a place in one of these functions, between two critical sections, with the
local variables that are still needed.  `threadStep` runs a thread up to the end of its next
critical section.  A `Cluster` has the shared state and the threads of every server and the
messages ever sent; an `Event` chooses who moves.  So a run of `Cluster.step` is an arbitrary
interleaving of the critical sections of all threads of all servers, with messages delayed,
reordered, lost (never received) or repeated, calls that time out and servers that restart.
-/
import OpenNebula.RaftManager

/-! ## Messages -/

/-- The parameters of the call `one.zone.voterequest`. -/
structure VoteParams where
  candidateId : ServerId
  dst : ServerId
  candidateTerm : ℕ
  logIndex : ℕ
  logTerm : ℕ
  deriving DecidableEq, Repr

/-- The parameters of the call `one.zone.replicate` (`Client::replicate_params`). -/
structure ReplicateParams where
  leaderId : ServerId
  dst : ServerId
  leaderCommit : ℕ
  leaderTerm : ℕ
  index : ℕ
  term : ℕ
  prevIndex : ℕ
  prevTerm : ℕ
  fedIndex : Option ℕ
  sql : Sql
  deriving DecidableEq, Repr

/-- The test of `ZoneAPI::replicate_log` for a heartbeat. -/
def ReplicateParams.isHeartbeat (p : ReplicateParams) : Bool :=
  p.index == 0 && p.prevIndex == 0 && p.term == 0 && p.prevTerm == 0 && p.sql.isEmpty

/-- A call or its reply: the result and the term of the server that answers. -/
inductive Msg where
  | vote (p : VoteParams)
  | voteReply (p : VoteParams) (success : Bool) (fterm : ℕ)
  | replicate (p : ReplicateParams)
  | replicateReply (p : ReplicateParams) (success : Bool) (fterm : ℕ)
  deriving DecidableEq, Repr

/-! ## Servers and threads -/

/-- The state of a server that its threads share: the Raft state, the log and the row
`RAFT_STATE` of the table `system_attributes`. -/
structure Server where
  raft : RaftManager
  logdb : LogDB
  row : Snapshot
  /-- The number of replication requests created so far. -/
  tickets : ℕ
  deriving DecidableEq

/-- A thread between two critical sections. -/
inductive Thread where
  | done
  /-- A handler about to return: the reply is sent. -/
  | reply (m : Msg)
  /-- `LogDB::update_raft_state` with the text taken out of `raft_mutex`. -/
  | updateRaftState (x : Snapshot) (k : Thread)
  /-- `RaftManager::follower`, before `setup_index` and before its critical section. -/
  | followerSetup (t : ℕ) (k : Thread)
  | followerLock (t lapplied : ℕ) (k : Thread)
  /-- `RaftManager::request_vote`. -/
  | voteInit (servers : List ServerId)
  | voteIndex (servers : List ServerId) (t votes2go : ℕ)
  | voteRpc (servers : List ServerId) (t votes2go lindex lterm : ℕ) (todo granted : List ServerId)
  | voteWait (servers : List ServerId) (t votes2go lindex lterm : ℕ)
      (todo granted : List ServerId) (p : VoteParams)
  | voteLost (servers : List ServerId) (t : ℕ)
  /-- `RaftManager::leader`; `granted` are the voters it is called for. -/
  | leaderSetup (t : ℕ) (granted : List ServerId)
  | leaderLock (t : ℕ) (granted : List ServerId) (applied index : ℕ)
  /-- `ZoneAPI::vote`. -/
  | voteTerm (p : VoteParams)
  | voteLog (p : VoteParams) (current : ℕ)
  | voteCast (p : VoteParams) (current logIndex logTerm : ℕ)
  /-- `ZoneAPI::replicate_log`. -/
  | replTerm (p : ReplicateParams)
  | replCandidate (p : ReplicateParams) (current : ℕ)
  | replHeartbeat (p : ReplicateParams) (current : ℕ)
  | replHeartbeatCommit (p : ReplicateParams) (current lindex : ℕ)
  | replPrev (p : ReplicateParams) (current : ℕ)
  | replRecord (p : ReplicateParams) (current : ℕ)
  | replDelete (p : ReplicateParams) (current : ℕ)
  | replInsert (p : ReplicateParams) (current : ℕ)
  | replCommit (p : ReplicateParams) (current : ℕ)
  | replApply (p : ReplicateParams) (current commit : ℕ)
  /-- `RaftReplicaThread::replicate` for the follower `f`, in the thread that was started
  when the server became leader of the term `epoch`. -/
  | replicaTerm (f : ServerId) (epoch : ℕ)
  | replicaNext (f : ServerId) (epoch t : ℕ)
  | replicaRecord (f : ServerId) (epoch t next : ℕ)
  | replicaRpc (f : ServerId) (epoch t : ℕ) (lr : LogDBRecord)
  | replicaWait (f : ServerId) (epoch t : ℕ) (p : ReplicateParams)
  | replicaSuccess (f : ServerId) (epoch : ℕ) (p : ReplicateParams)
  | replicaSuccessLock (f : ServerId) (epoch dbLindex : ℕ) (p : ReplicateParams)
  | replicaFailure (f : ServerId) (epoch : ℕ) (p : ReplicateParams)
  /-- `HeartBeatThread::replicate`. -/
  | beatTerm (f : ServerId)
  | beatRpc (f : ServerId) (t : ℕ)
  | beatWait (f : ServerId) (t : ℕ) (p : ReplicateParams)
  /-- `LogDB::_exec_wr`, up to the insertion of the record. -/
  | writeLeader (sql : Sql) (federated : Option ℕ)
  | writeTerm (sql : Sql) (federated : Option ℕ)
  | writeInsert (sql : Sql) (federated : Option ℕ) (t : ℕ)
  /-- `LogDB::replicate`, also called by the reconciliation thread of a new leader. -/
  | register (rindex : ℕ) (reconcile : Bool)
  | waitResult (ticket rindex : ℕ) (reconcile : Bool)
  | checkLeader (rindex : ℕ) (result reconcile : Bool)
  | applyRecords (rindex : ℕ) (reconcile : Bool)
  | reconciled
  /-- `RaftManager::add_server` and `RaftManager::reset_index`. -/
  | addServer (f : ServerId)
  | addServerLock (f : ServerId) (logIndex : ℕ)
  | resetIndex (f : ServerId)
  | resetIndexLock (f : ServerId) (logIndex : ℕ)
  deriving DecidableEq

/-- What the surroundings decide in one step of a thread: whether the database executes the
statement and what it answers to the queries, the clock, the outcome of the SQL command of each
record, the reply to a call (`none` for a network error) and the checks on the caller of a
handler. -/
structure Env where
  dbOk : Bool
  backend : Backend := {}
  now : ℕ
  exec : ℕ → SqlError
  reply : Option (Bool × ℕ)
  oneadmin : Bool
  cache : Bool

/-- Surroundings in which everything works and no reply is there yet. -/
def Env.calm : Env :=
  { dbOk := true, now := 1, exec := fun _ => .success, reply := none, oneadmin := true,
    cache := false }

/-- The same with a reply to the call. -/
def Env.answer (success : Bool) (fterm : ℕ) : Env :=
  { Env.calm with reply := some (success, fterm) }

/-- What an observer of the zone records: the application of a record, and each assignment
of `commit` by a leader, with its term and the record it has at that index. -/
inductive Obs where
  | applied (s : ServerId) (index term : ℕ) (sql : Sql)
  | commit (s : ServerId) (leaderTerm index : ℕ) (record : Option (ℕ × Sql))
  deriving DecidableEq, Repr

/-- The result of a step of a thread: the shared state, the place the thread is in, the
messages sent, the threads started and what is observed. -/
structure Outcome where
  server : Server
  thread : Thread
  sent : List Msg
  started : List Thread
  obs : List Obs

namespace Outcome

/-- A step that only changes the shared state. -/
def mk' (v : Server) (t : Thread) : Outcome := ⟨v, t, [], [], []⟩

/-- A step that sends a message. -/
def send (v : Server) (t : Thread) (m : Msg) : Outcome := ⟨v, t, [m], [], []⟩

end Outcome

/-! ## One step of a thread -/

namespace Thread

/-- The reply of `ZoneAPI::vote`. -/
def voteReply (p : VoteParams) (success : Bool) (current : ℕ) : Thread :=
  .reply (.voteReply p success current)

/-- The reply of `ZoneAPI::replicate_log`. -/
def replReply (p : ReplicateParams) (success : Bool) (current : ℕ) : Thread :=
  .reply (.replicateReply p success current)

/-- The loop of `request_vote` after one call: enough votes, a further call, or a lost
election. -/
def voteNext (servers : List ServerId) (t votes2go lindex lterm : ℕ)
    (todo granted : List ServerId) : Thread :=
  if votes2go ≤ granted.length then .leaderSetup t granted
  else if todo = [] then .voteLost servers t
  else .voteRpc servers t votes2go lindex lterm todo granted

/-- `ZoneAPI::replicate_log` after `update_last_heartbeat`: a heartbeat, a record, or an
error.  The record `0` has no previous record to check. -/
def replDispatch (p : ReplicateParams) (current : ℕ) : Thread :=
  if p.isHeartbeat then .replHeartbeat p current
  else if p.sql.isEmpty then replReply p false current
  else if 0 < p.index then .replPrev p current
  else .replRecord p current

end Thread

open Thread Outcome in
/-- The steps of the timer thread inside `RaftManager::request_vote` and
`RaftManager::leader`. -/
def electionStep (me : ServerId) (v : Server) (net : List Msg) (env : Env) :
    Thread → Option Outcome
  | .voteInit servers =>
    match v.raft.requestVote me servers with
    | none => some (mk' v .done)
    | some (r, x) =>
      some (mk' { v with raft := r }
        (.updateRaftState x (.voteIndex servers r.term (r.numServers / 2))))
  | .voteIndex servers t votes2go =>
    let todo := servers.filter (fun f => f ≠ me)
    let k := if todo = [] then voteNext servers t votes2go v.logdb.lastIndex v.logdb.lastTerm [] []
      else .voteRpc servers t votes2go v.logdb.lastIndex v.logdb.lastTerm todo []
    some (mk' v k)
  | .voteRpc servers t votes2go lindex lterm todo granted =>
    match todo with
    | [] => none
    | f :: rest =>
      if f ∈ v.raft.servers then
        -- `rpc_request_vote` reads the term again; `Client::vote_request` has 32 bits for
        -- the index
        let p : VoteParams :=
          { candidateId := me, dst := f, candidateTerm := v.raft.term,
            logIndex := lindex % 2 ^ 32, logTerm := lterm }
        some (send v (.voteWait servers t votes2go lindex lterm rest granted p) (.vote p))
      else some (mk' v (voteNext servers t votes2go lindex lterm rest granted))
  | .voteWait servers t votes2go lindex lterm todo granted p =>
    match env.reply with
    | none => some (mk' v (voteNext servers t votes2go lindex lterm todo granted))
    | some (success, fterm) =>
      if .voteReply p success fterm ∈ net then
        if success then
          some (mk' v (voteNext servers t votes2go lindex lterm todo (p.dst :: granted)))
        else if t < fterm then some (mk' v (.followerSetup fterm .done))
        else some (mk' v (voteNext servers t votes2go lindex lterm todo granted))
      else none
  | .voteLost servers _ =>
    match v.raft.resetVotedfor with
    | none => some (mk' v .done)
    | some (r, x) => some (mk' { v with raft := r } (.updateRaftState x (.voteInit servers)))
  | .leaderSetup t granted =>
    let (db, applied, index) := v.logdb.setupIndex env.backend
    some (mk' { v with logdb := db } (.leaderLock t granted applied index))
  | .leaderLock _ _ applied index =>
    match v.raft.leader me applied index with
    | none => some (mk' v .done)
    | some (r, none) => some (mk' { v with raft := r } .done)
    | some (r, some i) =>
      some { mk' { v with raft := r } .done with started := [.register i true] }
  | _ => none

open Thread Outcome in
/-- The steps of the handlers `ZoneAPI::vote` and `ZoneAPI::replicate_log`. -/
def handlerStep (me : ServerId) (v : Server) (env : Env) : Thread → Option Outcome
  | .voteTerm p => some (mk' v (.voteLog p v.raft.term))
  | .voteLog p current =>
    let (logIndex, logTerm) := (v.logdb.lastIndex, v.logdb.lastTerm)
    let k : Thread :=
      if !env.oneadmin then voteReply p false current
      else if env.cache then voteReply p false 0
      else if p.candidateTerm < current then voteReply p false current
      else if current < p.candidateTerm then
        .followerSetup p.candidateTerm (.voteCast p current logIndex logTerm)
      else .voteCast p current logIndex logTerm
    some (mk' v k)
  | .voteCast p current logIndex logTerm =>
    if p.logTerm < logTerm ∨ (logTerm = p.logTerm ∧ p.logIndex < logIndex) then
      some (mk' v (voteReply p false current))
    else
      match v.raft.updateVotedfor p.candidateId with
      | none => some (mk' v (voteReply p false current))
      | some (r, x) =>
        some (mk' { v with raft := r } (.updateRaftState x (voteReply p true current)))
  | .replTerm p =>
    let current := v.raft.term
    let k : Thread :=
      if !env.oneadmin then replReply p false current
      else if env.cache then replReply p false 0
      else if p.leaderTerm < current then replReply p false current
      else if current < p.leaderTerm then .followerSetup p.leaderTerm (.replCandidate p current)
      else .replCandidate p current
    some (mk' v k)
  | .replCandidate p current =>
    if v.raft.state = .candidate then
      some (mk' v (.followerSetup p.leaderTerm (replDispatch p current)))
    else some (mk' v (replDispatch p current))
  | .replHeartbeat p current => some (mk' v (.replHeartbeatCommit p current v.logdb.lastIndex))
  | .replHeartbeatCommit p current lindex =>
    let (r, c) := v.raft.updateCommit p.leaderCommit lindex
    some (mk' { v with raft := r } (.replApply p current c))
  | .replPrev p current =>
    match v.logdb.getLogRecord p.prevIndex (LogDB.pred64 p.prevIndex) env.backend with
    | none => some (mk' v (replReply p false current))
    | some lr =>
      if lr.term ≠ p.prevTerm then some (mk' v (replReply p false current))
      else some (mk' v (.replRecord p current))
  | .replRecord p current =>
    match v.logdb.getLogRecord p.index (LogDB.pred64 p.index) env.backend with
    | none => some (mk' v (.replInsert p current))
    | some lr =>
      if lr.term ≠ p.term then some (mk' v (.replDelete p current))
      else some (mk' v (replReply p true current))
  | .replDelete p current =>
    let (db, _) := v.logdb.deleteLogRecords env.dbOk p.index env.backend
    some (mk' { v with logdb := db } (.replInsert p current))
  | .replInsert p current =>
    match v.logdb.insertLogRecordAt env.dbOk p.index p.term p.sql 0 p.fedIndex true env.backend with
    | none => none
    | some (_, false) => some (mk' v (replReply p false current))
    | some (db, true) => some (mk' { v with logdb := db } (.replCommit p current))
  | .replCommit p current =>
    let (r, c) := v.raft.updateCommit p.leaderCommit p.index
    some (mk' { v with raft := r } (.replApply p current c))
  | .replApply p current commit =>
    let (db, _, lrs) := v.logdb.applyLogRecords env.dbOk env.now env.exec commit env.backend
    some { mk' { v with logdb := db } (replReply p true current) with
      obs := lrs.map (fun lr => .applied me lr.index lr.term lr.sql) }
  | _ => none

open Thread Outcome in
/-- The steps of the replica and heartbeat threads of `ReplicaThread.cc`. -/
def replicaStep (me : ServerId) (v : Server) (net : List Msg) (env : Env) :
    Thread → Option Outcome
  | .replicaTerm f epoch => some (mk' v (.replicaNext f epoch v.raft.term))
  | .replicaNext f epoch t =>
    match v.raft.next.lookup f with
    | none => some (retry v f epoch)
    | some i => some (mk' v (.replicaRecord f epoch t i))
  | .replicaRecord f epoch t next =>
    match v.logdb.getLogRecord next (LogDB.pred64 next) env.backend with
    | none => some (retry v f epoch)
    | some lr => some (mk' v (.replicaRpc f epoch t lr))
  | .replicaRpc f epoch t lr =>
    if f ∈ v.raft.servers then
      let p : ReplicateParams :=
        { leaderId := me, dst := f, leaderCommit := v.raft.commit, leaderTerm := v.raft.term,
          index := lr.index, term := lr.term, prevIndex := lr.prevIndex,
          prevTerm := lr.prevTerm, fedIndex := lr.fedIndex, sql := lr.sql }
      some (send v (.replicaWait f epoch t p) (.replicate p))
    else some (retry v f epoch)
  | .replicaWait f epoch t p =>
    match env.reply with
    | none => some (retry v f epoch)
    | some (success, fterm) =>
      if .replicateReply p success fterm ∈ net then
        if success then some (mk' v (.replicaSuccess f epoch p))
        else if t < fterm then some (mk' v (.followerSetup fterm .done))
        else some (mk' v (.replicaFailure f epoch p))
      else none
  | .replicaSuccess f epoch p => some (mk' v (.replicaSuccessLock f epoch v.logdb.lastIndex p))
  | .replicaSuccessLock f _ dbLindex _ =>
    let (r, c) := v.raft.replicateSuccess f dbLindex
    some { mk' { v with raft := r } .done with
      obs := c.toList.map (fun i => .commit me v.raft.term i (v.logdb.entry i)) }
  | .replicaFailure f _ _ => some (mk' { v with raft := v.raft.replicateFailure f } .done)
  | .beatTerm f => some (mk' v (.beatRpc f v.raft.term))
  | .beatRpc f t =>
    if f ∈ v.raft.servers then
      let p : ReplicateParams :=
        { leaderId := me, dst := f, leaderCommit := v.raft.commit, leaderTerm := v.raft.term,
          index := 0, term := 0, prevIndex := 0, prevTerm := 0, fedIndex := none, sql := [] }
      some (send v (.beatWait f t p) (.replicate p))
    else some (mk' v .done)
  | .beatWait _ t p =>
    match env.reply with
    | none => some (mk' v .done)
    | some (success, fterm) =>
      if .replicateReply p success fterm ∈ net then
        if !success && decide (t < fterm) then some (mk' v (.followerSetup fterm .done))
        else some (mk' v .done)
      else none
  | _ => none
where
  /-- `replicate` returns `-1`: the thread of this leadership tries again later. -/
  retry (v : Server) (f : ServerId) (epoch : ℕ) : Outcome :=
    if v.raft.state = .leader ∧ v.raft.term = epoch then
      mk' { v with raft := { v.raft with pending := v.raft.pending ++ [f] } } .done
    else mk' v .done

open Thread Outcome in
/-- The steps of the writers, of the reconciliation thread and of the requests that add a
server or reset its index. -/
def writerStep (me : ServerId) (v : Server) (env : Env) : Thread → Option Outcome
  | .writeLeader sql fed =>
    if v.raft.state = .leader then some (mk' v (.writeTerm sql fed)) else some (mk' v .done)
  | .writeTerm sql fed => some (mk' v (.writeInsert sql fed v.raft.term))
  | .writeInsert sql fed t =>
    match v.logdb.insertLogRecord env.dbOk t sql 0 fed env.backend with
    | none => none
    | some (_, none) => some (mk' v .done)
    | some (db, some i) =>
      some (mk' { v with logdb := db, raft := v.raft.replicateAllocate i } (.register i false))
  | .register i back =>
    let (r, c) := v.raft.replicateLog v.tickets i
    some { mk' { v with raft := r, tickets := v.tickets + 1 } (.waitResult v.tickets i back) with
      obs := c.toList.map (fun i => .commit me v.raft.term i (v.logdb.entry i)) }
  | .waitResult ticket i back =>
    match v.raft.requests.answers.lookup ticket with
    | none => none
    | some result => some (mk' v (.checkLeader i result back))
  | .checkLeader i result back =>
    if v.raft.state = .leader ∧ result then some (mk' v (.applyRecords i back))
    else some (mk' v (if back then .reconciled else .done))
  | .applyRecords i back =>
    let (db, _, lrs) := v.logdb.applyLogRecords env.dbOk env.now env.exec i env.backend
    some { mk' { v with logdb := db } (if back then .reconciled else .done) with
      obs := lrs.map (fun lr => .applied me lr.index lr.term lr.sql) }
  | .reconciled => some (mk' { v with raft := { v.raft with reconciling := false } } .done)
  | .addServer f => some (mk' v (.addServerLock f v.logdb.lastIndex))
  | .addServerLock f i => some (mk' { v with raft := v.raft.addServer f i } .done)
  | .resetIndex f => some (mk' v (.resetIndexLock f v.logdb.lastIndex))
  | .resetIndexLock f i => some (mk' { v with raft := v.raft.resetIndex f i } .done)
  | _ => none

open Thread Outcome in
/-- One step of a thread: it runs to the end of its next critical section. -/
def threadStep (me : ServerId) (v : Server) (net : List Msg) (env : Env) :
    Thread → Option Outcome
  | .done => none
  | .reply m => some (send v .done m)
  | .updateRaftState x k => some (mk' { v with row := if env.dbOk then x else v.row } k)
  | .followerSetup t k =>
    let (db, applied, _) := v.logdb.setupIndex env.backend
    some (mk' { v with logdb := db } (.followerLock t applied k))
  | .followerLock t applied k =>
    let (r, x) := v.raft.follower t applied
    some (mk' { v with raft := r } (match x with
      | some x => .updateRaftState x k
      | none => k))
  | t =>
    electionStep me v net env t <|> handlerStep me v env t <|> replicaStep me v net env t
      <|> writerStep me v env t

/-! ## The zone -/

/-- A server with its threads. -/
structure Node where
  server : Server
  timer : Thread
  threads : List Thread
  deriving DecidableEq

/-- The zone: its servers, the messages ever sent and what was observed. -/
structure Cluster where
  node : ServerId → Node
  net : List Msg
  obs : List Obs

/-- Who moves, and what the surroundings decide. -/
inductive Event where
  /-- The election timeout of a follower expires; `servers` is what `get_zone_servers`
  returns. -/
  | timeout (s : ServerId) (servers : List ServerId)
  /-- The timer thread runs. -/
  | timer (s : ServerId) (env : Env)
  /-- The `i`-th of the other threads runs. -/
  | thread (s : ServerId) (i : ℕ) (env : Env)
  /-- A call arrives and its handler starts. -/
  | recvVote (s : ServerId) (p : VoteParams)
  | recvReplicate (s : ServerId) (p : ReplicateParams)
  /-- The replica thread for the follower `f` has a pending request. -/
  | wake (s f : ServerId)
  /-- The heartbeat thread for the follower `f` is woken up. -/
  | beat (s f : ServerId)
  /-- A client writes to the database. -/
  | write (s : ServerId) (sql : Sql) (federated : Option ℕ)
  /-- The zone is told to add a server or to reset the index of one. -/
  | addServer (s f : ServerId)
  | resetServer (s f : ServerId)
  /-- The server process dies and is started again. -/
  | restart (s : ServerId) (servers : List ServerId) (now : ℕ) (text : Sql)

/-- The event keeps to a fixed set of servers. -/
def Event.inZone (zone : List ServerId) : Event → Bool
  | .timeout s servers => servers == zone && zone.contains s
  | .addServer _ _ => false
  | .restart _ servers _ _ => servers == zone
  | _ => true

namespace Cluster

/-- Replaces one server and records what was sent and observed. -/
def put (σ : Cluster) (s : ServerId) (n : Node) (sent : List Msg) (obs : List Obs) : Cluster :=
  { node := Function.update σ.node s n, net := sent ++ σ.net, obs := obs ++ σ.obs }

/-- Starts a thread on a server. -/
def start (σ : Cluster) (s : ServerId) (t : Thread) : Cluster :=
  let n := σ.node s
  σ.put s { n with threads := n.threads ++ [t] } [] []

/-- A replica thread for `f` of the leadership of term `epoch` that has not finished. -/
def isReplicaFor (f : ServerId) (epoch : ℕ) : Thread → Bool
  | .replicaTerm g e | .replicaNext g e _ | .replicaRecord g e _ _ | .replicaRpc g e _ _
  | .replicaWait g e _ _ | .replicaSuccess g e _ | .replicaSuccessLock g e _ _
  | .replicaFailure g e _ => g == f && e == epoch
  | _ => false

/-- One step of the zone. -/
def step (σ : Cluster) : Event → Option Cluster
  | .timeout s servers =>
    let n := σ.node s
    match n.timer, n.server.raft.timerAction with
    | .done, some r =>
      some (σ.put s { n with server := { n.server with raft := r }, timer := .voteInit servers }
        [] [])
    | _, _ => none
  | .timer s env =>
    let n := σ.node s
    match threadStep s n.server σ.net env n.timer with
    | some o =>
      some (σ.put s { server := o.server, timer := o.thread, threads := n.threads ++ o.started }
        o.sent o.obs)
    | none => none
  | .thread s i env =>
    let n := σ.node s
    match n.threads[i]? with
    | some t =>
      match threadStep s n.server σ.net env t with
      | some o =>
        some (σ.put s
          { server := o.server, timer := n.timer, threads := n.threads.set i o.thread ++ o.started }
          o.sent o.obs)
      | none => none
    | none => none
  | .recvVote s p =>
    if .vote p ∈ σ.net ∧ p.dst = s then some (σ.start s (.voteTerm p)) else none
  | .recvReplicate s p =>
    if .replicate p ∈ σ.net ∧ p.dst = s then some (σ.start s (.replTerm p)) else none
  | .wake s f =>
    let n := σ.node s
    let r := n.server.raft
    -- a replica thread does not start again before it has finished
    if r.state = .leader ∧ f ∈ r.pending ∧ n.threads.all (fun t => !isReplicaFor f r.term t) then
      some (σ.put s
        { n with
          server := { n.server with raft := { r with pending := r.pending.filter (· ≠ f) } }
          threads := n.threads ++ [.replicaTerm f r.term] } [] [])
    else none
  | .beat s f =>
    let r := (σ.node s).server.raft
    if r.state = .leader ∧ f ∈ r.servers ∧ f ≠ s then some (σ.start s (.beatTerm f)) else none
  | .write s sql fed => some (σ.start s (.writeLeader sql fed))
  | .addServer s f => some (σ.start s (.addServer f))
  | .resetServer s f => some (σ.start s (.resetIndex f))
  | .restart s servers now text =>
    let v := (σ.node s).server
    let db := v.logdb
    some (σ.put s
      { server :=
          { v with
            raft := RaftManager.construct v.row.attributes v.row.changes servers
            logdb := LogDB.construct db.table db.logRetention db.limitPurge db.limit now text }
        timer := .done
        threads := [] } [] [])

/-- The zone when it is first started: every server has bootstrapped its database.  The
command of the record `0` is the time at which this happened. -/
def init (zone : List ServerId) (text : ServerId → Sql) : Cluster where
  node := fun s =>
    { server :=
        { raft := RaftManager.construct ⟨0, none⟩ 0 zone
          logdb := LogDB.construct [] 250000 100000 true 1 (text s)
          row := ⟨⟨0, none⟩, 0⟩
          tickets := 0 }
      timer := .done
      threads := [] }
  net := []
  obs := []

end Cluster
