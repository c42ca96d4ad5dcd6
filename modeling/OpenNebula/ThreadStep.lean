/-
# What one step of a thread can do

`threadStep` is a function of about fifty places in the code.  This file says once, as the
relation `ThreadStep`, what it can do: which steps only move the thread on (`Goto`), which end
it, and, for every critical section that changes the shared state, what it reads and writes.
`threadStep_cases` turns a step of the model into a case of these relations, and every
invariant is proved by going through the cases.
-/
import OpenNebula.RaftCluster

/-- The steps of a thread that change nothing but its own place. -/
inductive Goto (me : ServerId) (v : Server) (net : List Msg) (env : Env) : Thread → Thread → Prop
  | voteIndex {servers : List ServerId} {t n : ℕ} :
      Goto me v net env (.voteIndex servers t n)
        (.voteRpc servers t n v.logdb.lastIndex v.logdb.lastTerm
          (servers.filter (fun f => f ≠ me)) [])
  | voteAlone {servers : List ServerId} {t n : ℕ} :
      Goto me v net env (.voteIndex servers t n)
        (Thread.voteNext servers t n v.logdb.lastIndex v.logdb.lastTerm [] [])
  | voteSkip {servers rest granted : List ServerId} {f : ServerId} {t n li lt : ℕ} :
      Goto me v net env (.voteRpc servers t n li lt (f :: rest) granted)
        (Thread.voteNext servers t n li lt rest granted)
  | voteDenied {servers todo granted : List ServerId} {t n li lt : ℕ} {p : VoteParams} :
      Goto me v net env (.voteWait servers t n li lt todo granted p)
        (Thread.voteNext servers t n li lt todo granted)
  | voteGranted {servers todo granted : List ServerId} {t n li lt fterm : ℕ} {p : VoteParams} :
      Msg.voteReply p true fterm ∈ net →
      Goto me v net env (.voteWait servers t n li lt todo granted p)
        (Thread.voteNext servers t n li lt todo (p.dst :: granted))
  | voteStepDown {servers todo granted : List ServerId} {t n li lt fterm : ℕ} {p : VoteParams} :
      Goto me v net env (.voteWait servers t n li lt todo granted p) (.followerSetup fterm .done)
  | voteTerm {p : VoteParams} : Goto me v net env (.voteTerm p) (.voteLog p v.raft.term)
  | voteReject {p : VoteParams} {t c : ℕ} :
      Goto me v net env (.voteLog p t) (Thread.voteReply p false c)
  | voteNewTerm {p : VoteParams} {t : ℕ} :
      Goto me v net env (.voteLog p t)
        (.followerSetup p.candidateTerm (.voteCast p t v.logdb.lastIndex v.logdb.lastTerm))
  | voteSameTerm {p : VoteParams} {t : ℕ} :
      Goto me v net env (.voteLog p t) (.voteCast p t v.logdb.lastIndex v.logdb.lastTerm)
  | voteDeny {p : VoteParams} {t li lt : ℕ} :
      Goto me v net env (.voteCast p t li lt) (Thread.voteReply p false t)
  | replReject {p : ReplicateParams} {c : ℕ} :
      Goto me v net env (.replTerm p) (Thread.replReply p false c)
  | replNewTerm {p : ReplicateParams} : v.raft.term < p.leaderTerm →
      Goto me v net env (.replTerm p) (.followerSetup p.leaderTerm (.replCandidate p v.raft.term))
  | replSameTerm {p : ReplicateParams} : v.raft.term = p.leaderTerm →
      Goto me v net env (.replTerm p) (.replCandidate p v.raft.term)
  | replCandidate {p : ReplicateParams} {t : ℕ} : v.raft.state = .candidate →
      Goto me v net env (.replCandidate p t)
        (.followerSetup p.leaderTerm (Thread.replDispatch p t))
  | replNotCandidate {p : ReplicateParams} {t : ℕ} : v.raft.state ≠ .candidate →
      Goto me v net env (.replCandidate p t) (Thread.replDispatch p t)
  | replHeartbeat {p : ReplicateParams} {t : ℕ} :
      Goto me v net env (.replHeartbeat p t) (.replHeartbeatCommit p t v.logdb.lastIndex)
  | replNoPrev {p : ReplicateParams} {t : ℕ} :
      Goto me v net env (.replPrev p t) (Thread.replReply p false t)
  | replPrev {p : ReplicateParams} {t : ℕ} {lr : LogDBRecord} :
      v.logdb.getLogRecord p.prevIndex (LogDB.pred64 p.prevIndex) env.backend = some lr →
      lr.term = p.prevTerm → Goto me v net env (.replPrev p t) (.replRecord p t)
  | replMissing {p : ReplicateParams} {t : ℕ} :
      v.logdb.getLogRecord p.index (LogDB.pred64 p.index) env.backend = none →
      Goto me v net env (.replRecord p t) (.replInsert p t)
  | replConflict {p : ReplicateParams} {t : ℕ} {lr : LogDBRecord} :
      v.logdb.getLogRecord p.index (LogDB.pred64 p.index) env.backend = some lr → lr.term ≠ p.term →
      Goto me v net env (.replRecord p t) (.replDelete p t)
  | replKnown {p : ReplicateParams} {t : ℕ} {lr : LogDBRecord} :
      v.logdb.getLogRecord p.index (LogDB.pred64 p.index) env.backend = some lr → lr.term = p.term →
      Goto me v net env (.replRecord p t) (Thread.replReply p true t)
  | replInsertFailed {p : ReplicateParams} {t : ℕ} :
      Goto me v net env (.replInsert p t) (Thread.replReply p false t)
  | replicaTerm {f : ServerId} {e : ℕ} :
      Goto me v net env (.replicaTerm f e) (.replicaNext f e v.raft.term)
  | replicaNext {f : ServerId} {e t i : ℕ} : v.raft.next.lookup f = some i →
      Goto me v net env (.replicaNext f e t) (.replicaRecord f e t i)
  | replicaRecord {f : ServerId} {e t i : ℕ} {lr : LogDBRecord} :
      v.logdb.getLogRecord i (LogDB.pred64 i) env.backend = some lr →
      Goto me v net env (.replicaRecord f e t i) (.replicaRpc f e t lr)
  | replicaSuccess {f : ServerId} {e t fterm : ℕ} {p : ReplicateParams} :
      Msg.replicateReply p true fterm ∈ net →
      Goto me v net env (.replicaWait f e t p) (.replicaSuccess f e p)
  | replicaStepDown {f : ServerId} {e t fterm : ℕ} {p : ReplicateParams} :
      Goto me v net env (.replicaWait f e t p) (.followerSetup fterm .done)
  | replicaFailure {f : ServerId} {e t : ℕ} {p : ReplicateParams} :
      Goto me v net env (.replicaWait f e t p) (.replicaFailure f e p)
  | replicaSuccessLock {f : ServerId} {e : ℕ} {p : ReplicateParams} :
      Goto me v net env (.replicaSuccess f e p) (.replicaSuccessLock f e v.logdb.lastIndex p)
  | beatTerm {f : ServerId} : Goto me v net env (.beatTerm f) (.beatRpc f v.raft.term)
  | beatStepDown {f : ServerId} {t fterm : ℕ} {p : ReplicateParams} :
      Goto me v net env (.beatWait f t p) (.followerSetup fterm .done)
  | writeLeader {sql : Sql} {fed : Option ℕ} :
      Goto me v net env (.writeLeader sql fed) (.writeTerm sql fed)
  | writeTerm {sql : Sql} {fed : Option ℕ} :
      Goto me v net env (.writeTerm sql fed) (.writeInsert sql fed v.raft.term)
  | waitResult {ticket i : ℕ} {back result : Bool} :
      v.raft.requests.answers.lookup ticket = some result →
      Goto me v net env (.waitResult ticket i back) (.checkLeader i result back)
  | checkLeader {i : ℕ} {back : Bool} :
      Goto me v net env (.checkLeader i true back) (.applyRecords i back)
  | checkLeaderFailed {i : ℕ} {result back : Bool} :
      Goto me v net env (.checkLeader i result back) .reconciled
  | addServer {f : ServerId} : Goto me v net env (.addServer f) (.addServerLock f v.logdb.lastIndex)
  | resetIndex {f : ServerId} :
      Goto me v net env (.resetIndex f) (.resetIndexLock f v.logdb.lastIndex)

/-- The parameters of the message that `rpc_request_vote` sends. -/
def Server.voteParams (me : ServerId) (v : Server) (f : ServerId) (lindex lterm : ℕ) :
    VoteParams :=
  { candidateId := me, dst := f, candidateTerm := v.raft.term,
    logIndex := lindex % 2 ^ 32, logTerm := lterm }

/-- The parameters of the message that `RaftReplicaThread` sends. -/
def Server.recordParams (me : ServerId) (v : Server) (f : ServerId) (lr : LogDBRecord) :
    ReplicateParams :=
  { leaderId := me, dst := f, leaderCommit := v.raft.commit, leaderTerm := v.raft.term,
    index := lr.index, term := lr.term, prevIndex := lr.prevIndex,
    prevTerm := lr.prevTerm, fedIndex := lr.fedIndex, sql := lr.sql }

/-- The parameters of the message that `HeartBeatThread` sends. -/
def Server.beatParams (me : ServerId) (v : Server) (f : ServerId) : ReplicateParams :=
  { leaderId := me, dst := f, leaderCommit := v.raft.commit, leaderTerm := v.raft.term,
    index := 0, term := 0, prevIndex := 0, prevTerm := 0, fedIndex := none, sql := [] }

open Outcome in
/-- The steps of a thread. -/
inductive ThreadStep (me : ServerId) (v : Server) (net : List Msg) (env : Env) :
    Thread → Outcome → Prop
  | goto {t t' : Thread} : Goto me v net env t t' → ThreadStep me v net env t (mk' v t')
  /-- The thread ends; at most the flags of the replica threads change. -/
  | finish {t : Thread} (pending : List ServerId) (reconciling : Bool) :
      (∀ x k, t ≠ .updateRaftState x k) →
      ThreadStep me v net env t
        (mk' { v with raft := { v.raft with pending := pending, reconciling := reconciling } }
          .done)
  | reply (m : Msg) : ThreadStep me v net env (.reply m) (send v .done m)
  | updateRaftState (x : Snapshot) (k : Thread) :
      ThreadStep me v net env (.updateRaftState x k)
        (mk' { v with row := if env.dbOk then x else v.row } k)
  | followerSetup (t : ℕ) (k : Thread) :
      ThreadStep me v net env (.followerSetup t k)
        (mk' { v with logdb := (v.logdb.setupIndex env.backend).1 }
          (.followerLock t (v.logdb.setupIndex env.backend).2.1 k))
  | followerNewTerm (t a : ℕ) (k : Thread) : v.raft.term < t →
      ThreadStep me v net env (.followerLock t a k)
        (mk' { v with raft := (v.raft.follower t a).1 }
          (.updateRaftState ⟨⟨t, none⟩, v.raft.changes + 1⟩ k))
  | followerSameTerm (t a : ℕ) (k : Thread) : t ≤ v.raft.term →
      ThreadStep me v net env (.followerLock t a k)
        (mk' { v with raft := (v.raft.follower t a).1 } k)
  | requestVote (servers : List ServerId) (r : RaftManager) (x : Snapshot) :
      v.raft.requestVote me servers = some (r, x) →
      ThreadStep me v net env (.voteInit servers)
        (mk' { v with raft := r }
          (.updateRaftState x (.voteIndex servers r.term (r.numServers / 2))))
  | voteSend (servers : List ServerId) (t n li lt : ℕ) (f : ServerId)
      (rest granted : List ServerId) :
      ThreadStep me v net env (.voteRpc servers t n li lt (f :: rest) granted)
        (send v (.voteWait servers t n li lt rest granted (v.voteParams me f li lt))
          (.vote (v.voteParams me f li lt)))
  | voteLost (servers : List ServerId) (t : ℕ) (r : RaftManager) (x : Snapshot) :
      v.raft.resetVotedfor = some (r, x) →
      ThreadStep me v net env (.voteLost servers t)
        (mk' { v with raft := r } (.updateRaftState x (.voteInit servers)))
  | leaderSetup (t : ℕ) (granted : List ServerId) :
      ThreadStep me v net env (.leaderSetup t granted)
        (mk' { v with logdb := (v.logdb.setupIndex env.backend).1 }
          (.leaderLock t granted (v.logdb.setupIndex env.backend).2.1
            (v.logdb.setupIndex env.backend).2.2))
  | leaderLock (t : ℕ) (granted : List ServerId) (applied index : ℕ) (r : RaftManager)
      (o : Option ℕ) :
      v.raft.leader me applied index = some (r, o) →
      ThreadStep me v net env (.leaderLock t granted applied index)
        ⟨{ v with raft := r }, .done, [], (o.map (fun i => Thread.register i true)).toList, []⟩
  | voteCast (p : VoteParams) (t li lt : ℕ) (r : RaftManager) (x : Snapshot) :
      ¬ (p.logTerm < lt ∨ (lt = p.logTerm ∧ p.logIndex < li)) →
      v.raft.updateVotedfor p.candidateId = some (r, x) →
      ThreadStep me v net env (.voteCast p t li lt)
        (mk' { v with raft := r } (.updateRaftState x (Thread.voteReply p true t)))
  | heartbeatCommit (p : ReplicateParams) (t li : ℕ) :
      ThreadStep me v net env (.replHeartbeatCommit p t li)
        (mk' { v with raft := (v.raft.updateCommit p.leaderCommit li).1 }
          (.replApply p t (v.raft.updateCommit p.leaderCommit li).2))
  | replDelete (p : ReplicateParams) (t : ℕ) :
      ThreadStep me v net env (.replDelete p t)
        (mk' { v with logdb := (v.logdb.deleteLogRecords env.dbOk p.index env.backend).1 }
          (.replInsert p t))
  | replInsert (p : ReplicateParams) (t : ℕ) (db : LogDB) :
      v.logdb.insertLogRecordAt env.dbOk p.index p.term p.sql 0 p.fedIndex true env.backend
        = some (db, true) →
      ThreadStep me v net env (.replInsert p t) (mk' { v with logdb := db } (.replCommit p t))
  | replCommit (p : ReplicateParams) (t : ℕ) :
      ThreadStep me v net env (.replCommit p t)
        (mk' { v with raft := (v.raft.updateCommit p.leaderCommit p.index).1 }
          (.replApply p t (v.raft.updateCommit p.leaderCommit p.index).2))
  | replApply (p : ReplicateParams) (t c : ℕ) :
      ThreadStep me v net env (.replApply p t c)
        ⟨{ v with logdb := (v.logdb.applyLogRecords env.dbOk env.now env.exec c env.backend).1 },
          Thread.replReply p true t, [], [],
          (v.logdb.applyLogRecords env.dbOk env.now env.exec c env.backend).2.2.map
            (fun lr => .applied me lr.index lr.term lr.sql)⟩
  | replicaSend (f : ServerId) (e t : ℕ) (lr : LogDBRecord) :
      f ∈ v.raft.servers →
      ThreadStep me v net env (.replicaRpc f e t lr)
        (send v (.replicaWait f e t (v.recordParams me f lr)) (.replicate (v.recordParams me f lr)))
  | replicaSuccessLock (f : ServerId) (e i : ℕ) (p : ReplicateParams) :
      ThreadStep me v net env (.replicaSuccessLock f e i p)
        ⟨{ v with raft := (v.raft.replicateSuccess f i).1 }, .done, [], [],
          (v.raft.replicateSuccess f i).2.toList.map
            (fun i => .commit me v.raft.term i (v.logdb.entry i))⟩
  | replicaFailure (f : ServerId) (e : ℕ) (p : ReplicateParams) :
      ThreadStep me v net env (.replicaFailure f e p)
        (mk' { v with raft := v.raft.replicateFailure f } .done)
  | beatSend (f : ServerId) (t : ℕ) :
      ThreadStep me v net env (.beatRpc f t)
        (send v (.beatWait f t (v.beatParams me f)) (.replicate (v.beatParams me f)))
  | writeInsert (sql : Sql) (fed : Option ℕ) (t : ℕ) (db : LogDB) (i : ℕ) :
      v.logdb.insertLogRecord env.dbOk t sql 0 fed env.backend = some (db, some i) →
      ThreadStep me v net env (.writeInsert sql fed t)
        (mk' { v with logdb := db, raft := v.raft.replicateAllocate i } (.register i false))
  | register (i : ℕ) (back : Bool) :
      ThreadStep me v net env (.register i back)
        ⟨{ v with raft := (v.raft.replicateLog v.tickets i).1, tickets := v.tickets + 1 },
          .waitResult v.tickets i back, [], [],
          (v.raft.replicateLog v.tickets i).2.toList.map
            (fun i => .commit me v.raft.term i (v.logdb.entry i))⟩
  | applyRecords (i : ℕ) (back : Bool) :
      ThreadStep me v net env (.applyRecords i back)
        ⟨{ v with logdb := (v.logdb.applyLogRecords env.dbOk env.now env.exec i env.backend).1 },
          if back then .reconciled else .done, [], [],
          (v.logdb.applyLogRecords env.dbOk env.now env.exec i env.backend).2.2.map
            (fun lr => .applied me lr.index lr.term lr.sql)⟩
  | addServerLock (f : ServerId) (i : ℕ) :
      ThreadStep me v net env (.addServerLock f i)
        (mk' { v with raft := v.raft.addServer f i } .done)
  | resetIndexLock (f : ServerId) (i : ℕ) :
      ThreadStep me v net env (.resetIndexLock f i)
        (mk' { v with raft := v.raft.resetIndex f i } .done)

/-! ## Inversion of `threadStep` -/

section Inversion

variable {me : ServerId} {v : Server} {net : List Msg} {env : Env} {t : Thread} {o : Outcome}

/-- A thread that ends without changing anything. -/
theorem ThreadStep.done (ht : ∀ x k, t ≠ .updateRaftState x k) :
    ThreadStep me v net env t (Outcome.mk' v .done) :=
  ThreadStep.finish v.raft.pending v.raft.reconciling ht

theorem electionStep_cases (h : electionStep me v net env t = some o) :
    ThreadStep me v net env t o := by
  cases t with
  | voteInit servers =>
    simp only [electionStep] at h
    split at h
    · rw [← Option.some.inj h]
      exact .done (by simp)
    · rename_i r x hr
      rw [← Option.some.inj h]
      exact .requestVote servers r x hr
  | voteIndex servers t n =>
    simp only [electionStep, Option.some.injEq] at h
    rw [← h]
    split
    · exact .goto .voteAlone
    · exact .goto .voteIndex
  | voteRpc servers t n li lt todo granted =>
    simp only [electionStep] at h
    split at h
    · exact absurd h (by simp)
    · split at h
      · rw [← Option.some.inj h]
        exact .voteSend servers t n li lt _ _ granted
      · rw [← Option.some.inj h]
        exact .goto .voteSkip
  | voteWait servers t n li lt todo granted p =>
    simp only [electionStep] at h
    split at h
    · rw [← Option.some.inj h]
      exact .goto .voteDenied
    · rename_i success fterm _
      split at h
      · rename_i hnet
        split at h
        · rename_i hs
          rw [← Option.some.inj h]
          rw [hs] at hnet
          exact .goto (.voteGranted hnet)
        · split at h
          · rw [← Option.some.inj h]
            exact .goto .voteStepDown
          · rw [← Option.some.inj h]
            exact .goto .voteDenied
      · exact absurd h (by simp)
  | voteLost servers t =>
    simp only [electionStep] at h
    split at h
    · rw [← Option.some.inj h]
      exact .done (by simp)
    · rename_i r x hr
      rw [← Option.some.inj h]
      exact .voteLost servers t r x hr
  | leaderSetup t granted =>
    simp only [electionStep, Option.some.injEq] at h
    rw [← h]
    exact .leaderSetup t granted
  | leaderLock t granted applied index =>
    simp only [electionStep] at h
    split at h
    · rw [← Option.some.inj h]
      exact .done (by simp)
    · rename_i r hr
      rw [← Option.some.inj h]
      exact .leaderLock t granted applied index r none hr
    · rename_i r i hr
      rw [← Option.some.inj h]
      exact .leaderLock t granted applied index r (some i) hr
  | _ => simp [electionStep] at h

theorem handlerStep_cases (h : handlerStep me v env t = some o) :
    ThreadStep me v net env t o := by
  cases t with
  | voteTerm p =>
    simp only [handlerStep, Option.some.injEq] at h
    rw [← h]
    exact .goto .voteTerm
  | voteLog p t =>
    simp only [handlerStep, Option.some.injEq] at h
    rw [← h]
    split
    · exact .goto .voteReject
    · split
      · exact .goto .voteReject
      · split
        · exact .goto .voteReject
        · split
          · exact .goto .voteNewTerm
          · exact .goto .voteSameTerm
  | voteCast p t li lt =>
    simp only [handlerStep] at h
    split at h
    · rw [← Option.some.inj h]
      exact .goto .voteDeny
    · rename_i hlog
      split at h
      · rw [← Option.some.inj h]
        exact .goto .voteDeny
      · rename_i r x hr
        rw [← Option.some.inj h]
        exact .voteCast p t li lt r x hlog hr
  | replTerm p =>
    simp only [handlerStep, Option.some.injEq] at h
    rw [← h]
    split
    · exact .goto .replReject
    · split
      · exact .goto .replReject
      · split
        · exact .goto .replReject
        · split
          · rename_i hlt
            exact .goto (.replNewTerm hlt)
          · rename_i hge hle
            exact .goto (.replSameTerm (by omega))
  | replCandidate p t =>
    simp only [handlerStep] at h
    split at h
    · rename_i hs
      rw [← Option.some.inj h]
      exact .goto (.replCandidate hs)
    · rename_i hs
      rw [← Option.some.inj h]
      exact .goto (.replNotCandidate hs)
  | replHeartbeat p t =>
    simp only [handlerStep, Option.some.injEq] at h
    rw [← h]
    exact .goto .replHeartbeat
  | replHeartbeatCommit p t li =>
    simp only [handlerStep, Option.some.injEq] at h
    rw [← h]
    exact .heartbeatCommit p t li
  | replPrev p t =>
    simp only [handlerStep] at h
    split at h
    · rw [← Option.some.inj h]
      exact .goto .replNoPrev
    · rename_i lr hlr
      split at h
      · rw [← Option.some.inj h]
        exact .goto .replNoPrev
      · rename_i hterm
        rw [← Option.some.inj h]
        exact .goto (.replPrev hlr (not_not.mp hterm))
  | replRecord p t =>
    simp only [handlerStep] at h
    split at h
    · rename_i hlr
      rw [← Option.some.inj h]
      exact .goto (.replMissing hlr)
    · rename_i lr hlr
      split at h
      · rename_i hterm
        rw [← Option.some.inj h]
        exact .goto (.replConflict hlr hterm)
      · rename_i hterm
        rw [← Option.some.inj h]
        exact .goto (.replKnown hlr (not_not.mp hterm))
  | replDelete p t =>
    simp only [handlerStep, Option.some.injEq] at h
    rw [← h]
    exact .replDelete p t
  | replInsert p t =>
    simp only [handlerStep] at h
    split at h
    · exact absurd h (by simp)
    · rw [← Option.some.inj h]
      exact .goto .replInsertFailed
    · rename_i db hdb
      rw [← Option.some.inj h]
      exact .replInsert p t db hdb
  | replCommit p t =>
    simp only [handlerStep, Option.some.injEq] at h
    rw [← h]
    exact .replCommit p t
  | replApply p t c =>
    simp only [handlerStep, Option.some.injEq] at h
    rw [← h]
    exact .replApply p t c
  | _ => simp [handlerStep] at h

theorem ThreadStep.retry (ht : ∀ x k, t ≠ .updateRaftState x k) (f : ServerId) (e : ℕ) :
    ThreadStep me v net env t (replicaStep.retry v f e) := by
  unfold replicaStep.retry
  split
  · exact ThreadStep.finish _ v.raft.reconciling ht
  · exact .done ht

theorem replicaStep_cases (h : replicaStep me v net env t = some o) :
    ThreadStep me v net env t o := by
  cases t with
  | replicaTerm f e =>
    simp only [replicaStep, Option.some.injEq] at h
    rw [← h]
    exact .goto .replicaTerm
  | replicaNext f e t =>
    simp only [replicaStep] at h
    split at h
    · rw [← Option.some.inj h]
      exact .retry (by simp) f e
    · rename_i i hi
      rw [← Option.some.inj h]
      exact .goto (.replicaNext hi)
  | replicaRecord f e t i =>
    simp only [replicaStep] at h
    split at h
    · rw [← Option.some.inj h]
      exact .retry (by simp) f e
    · rename_i lr hlr
      rw [← Option.some.inj h]
      exact .goto (.replicaRecord hlr)
  | replicaRpc f e t lr =>
    simp only [replicaStep] at h
    split at h
    · rename_i hf
      rw [← Option.some.inj h]
      exact .replicaSend f e t lr hf
    · rw [← Option.some.inj h]
      exact .retry (by simp) f e
  | replicaWait f e t p =>
    simp only [replicaStep] at h
    split at h
    · rw [← Option.some.inj h]
      exact .retry (by simp) f e
    · rename_i success fterm _
      split at h
      · rename_i hnet
        split at h
        · rename_i hs
          rw [← Option.some.inj h]
          rw [hs] at hnet
          exact .goto (.replicaSuccess hnet)
        · split at h
          · rw [← Option.some.inj h]
            exact .goto .replicaStepDown
          · rw [← Option.some.inj h]
            exact .goto .replicaFailure
      · exact absurd h (by simp)
  | replicaSuccess f e p =>
    simp only [replicaStep, Option.some.injEq] at h
    rw [← h]
    exact .goto .replicaSuccessLock
  | replicaSuccessLock f e i p =>
    simp only [replicaStep, Option.some.injEq] at h
    rw [← h]
    exact .replicaSuccessLock f e i p
  | replicaFailure f e p =>
    simp only [replicaStep, Option.some.injEq] at h
    rw [← h]
    exact .replicaFailure f e p
  | beatTerm f =>
    simp only [replicaStep, Option.some.injEq] at h
    rw [← h]
    exact .goto .beatTerm
  | beatRpc f t =>
    simp only [replicaStep] at h
    split at h
    · rw [← Option.some.inj h]
      exact .beatSend f t
    · rw [← Option.some.inj h]
      exact .done (by simp)
  | beatWait f t p =>
    simp only [replicaStep] at h
    split at h
    · rw [← Option.some.inj h]
      exact .done (by simp)
    · split at h
      · split at h
        · rw [← Option.some.inj h]
          exact .goto .beatStepDown
        · rw [← Option.some.inj h]
          exact .done (by simp)
      · exact absurd h (by simp)
  | _ => simp [replicaStep] at h

theorem writerStep_cases (h : writerStep me v env t = some o) :
    ThreadStep me v net env t o := by
  cases t with
  | writeLeader sql fed =>
    simp only [writerStep] at h
    split at h
    · rw [← Option.some.inj h]
      exact .goto .writeLeader
    · rw [← Option.some.inj h]
      exact .done (by simp)
  | writeTerm sql fed =>
    simp only [writerStep, Option.some.injEq] at h
    rw [← h]
    exact .goto .writeTerm
  | writeInsert sql fed t =>
    simp only [writerStep] at h
    split at h
    · exact absurd h (by simp)
    · rw [← Option.some.inj h]
      exact .done (by simp)
    · rename_i db i hdb
      rw [← Option.some.inj h]
      exact .writeInsert sql fed t db i hdb
  | register i back =>
    simp only [writerStep, Option.some.injEq] at h
    rw [← h]
    exact .register i back
  | waitResult ticket i back =>
    simp only [writerStep] at h
    split at h
    · exact absurd h (by simp)
    · rename_i result hres
      rw [← Option.some.inj h]
      exact .goto (.waitResult hres)
  | checkLeader i result back =>
    simp only [writerStep] at h
    split at h
    · rename_i hlead
      rw [← Option.some.inj h, hlead.2]
      exact .goto .checkLeader
    · rw [← Option.some.inj h]
      split
      · exact .goto .checkLeaderFailed
      · exact .done (by simp)
  | applyRecords i back =>
    simp only [writerStep, Option.some.injEq] at h
    rw [← h]
    exact .applyRecords i back
  | reconciled =>
    simp only [writerStep, Option.some.injEq] at h
    rw [← h]
    exact .finish v.raft.pending false (by simp)
  | addServer f =>
    simp only [writerStep, Option.some.injEq] at h
    rw [← h]
    exact .goto .addServer
  | addServerLock f i =>
    simp only [writerStep, Option.some.injEq] at h
    rw [← h]
    exact .addServerLock f i
  | resetIndex f =>
    simp only [writerStep, Option.some.injEq] at h
    rw [← h]
    exact .goto .resetIndex
  | resetIndexLock f i =>
    simp only [writerStep, Option.some.injEq] at h
    rw [← h]
    exact .resetIndexLock f i
  | _ => simp [writerStep] at h

/-- **Inversion.**  Every step of a thread is one of the cases of `ThreadStep`. -/
theorem threadStep_cases (h : threadStep me v net env t = some o) :
    ThreadStep me v net env t o := by
  have hrest : (electionStep me v net env t <|> handlerStep me v env t <|>
      replicaStep me v net env t <|> writerStep me v env t) = some o →
      ThreadStep me v net env t o := by
    intro h
    rcases (Option.orElse_eq_some _ _ _).mp h with h | ⟨-, h⟩
    · exact electionStep_cases h
    rcases (Option.orElse_eq_some _ _ _).mp h with h | ⟨-, h⟩
    · exact handlerStep_cases h
    rcases (Option.orElse_eq_some _ _ _).mp h with h | ⟨-, h⟩
    · exact replicaStep_cases h
    · exact writerStep_cases h
  cases t with
  | done => simp [threadStep] at h
  | reply m =>
    simp only [threadStep, Option.some.injEq] at h
    rw [← h]
    exact .reply m
  | updateRaftState x k =>
    simp only [threadStep, Option.some.injEq] at h
    rw [← h]
    exact .updateRaftState x k
  | followerSetup t k =>
    simp only [threadStep, Option.some.injEq] at h
    rw [← h]
    exact .followerSetup t k
  | followerLock t a k =>
    simp only [threadStep, Option.some.injEq] at h
    rw [← h]
    by_cases hlt : v.raft.term < t
    · have : ThreadStep me v net env _ _ := ThreadStep.followerNewTerm t a k hlt
      simpa [RaftManager.follower, hlt, RaftManager.snapshot, RaftManager.replaceState] using this
    · have : ThreadStep me v net env _ _ := ThreadStep.followerSameTerm t a k (not_lt.mp hlt)
      simpa [RaftManager.follower, hlt] using this
  | _ => exact hrest h

end Inversion
