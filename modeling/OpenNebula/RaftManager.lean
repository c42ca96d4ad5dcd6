/-
# The Raft state of a server (`src/raft/RaftManager.cc`, `include/ReplicaRequest.h`)

`RaftManager` keeps the state of one server of a zone under the lock `raft_mutex`.  This
file has that state and one pure function for each critical section of the class: what a
thread does to the state between taking and releasing the lock, given the values it read
before (for instance from `LogDB`, which has a lock of its own).  The order in which the
critical sections of different threads run is not decided here.

Conventions of the embedding:

* Server ids are natural numbers, and `-1` in `votedfor` is `none`.
* `std::map` is `AList`; the maps `next` and `match` are `next` and `matchIndex`.
* A `ReplicaRequest` is an object of the writer that waits for it.  The field `ticket` is
  its identity, and `answers` lists the requests that have been notified, with their
  `result`.
* `raft_state_xml`, the text in which `raft_state` is written to the database, is a
  `Snapshot`: the two attributes and the number of changes that were made to them under the
  lock before.  That number is a history variable, no branch reads it.
* `leader_id`, `last_heartbeat` and the hooks are not modelled: nothing here reads them.
-/
import OpenNebula.LogDB

/-- The id of a server of the zone. -/
abbrev ServerId := ℕ

/-! ## Replication requests -/

/-- `ReplicaRequest`: the replication of one log record. -/
structure ReplicaRequest where
  ticket : ℕ
  index : ℕ
  toCommit : ℤ
  replicas : ℕ
  deriving DecidableEq, Repr

/-- `ReplicaRequest::add_replica`. -/
def ReplicaRequest.addReplica (rr : ReplicaRequest) : ReplicaRequest :=
  { rr with
    replicas := rr.replicas + 1
    toCommit := if 0 < rr.toCommit then rr.toCommit - 1 else rr.toCommit }

/-- `ReplicaRequestMap`: for each log index a writer waits on, its request, or `none` (the
null pointer) when the writer has not registered it yet. -/
structure ReplicaRequestMap where
  requests : AList (fun _ : ℕ => Option ReplicaRequest)
  /-- The notified requests with their result, the last one first. -/
  answers : List (ℕ × Bool)
  deriving DecidableEq

namespace ReplicaRequestMap

/-- `ReplicaRequestMap::add_replica`: the second component is the number of replicas left
to commit, `-1` if no request is registered. -/
def addReplica (m : ReplicaRequestMap) (rindex : ℕ) : ReplicaRequestMap × ℤ :=
  match m.requests.lookup rindex with
  | some (some rr) =>
    let rr' := rr.addReplica
    if rr'.toCommit = 0 then
      ({ requests := m.requests.erase rindex, answers := (rr.ticket, true) :: m.answers }, 0)
    else ({ m with requests := m.requests.insert rindex (some rr') }, rr'.toCommit)
  | _ => (m, -1)

/-- `ReplicaRequestMap::allocate`: `std::map::insert` keeps an entry that is there. -/
def allocate (m : ReplicaRequestMap) (rindex : ℕ) : ReplicaRequestMap :=
  match m.requests.lookup rindex with
  | some _ => m
  | none => { m with requests := m.requests.insert rindex none }

/-- `ReplicaRequestMap::set`. -/
def set (m : ReplicaRequestMap) (rindex : ℕ) (rr : ReplicaRequest) : ReplicaRequestMap :=
  { m with requests := m.requests.insert rindex (some rr) }

/-- `ReplicaRequestMap::remove`. -/
def remove (m : ReplicaRequestMap) (rindex : ℕ) : ReplicaRequestMap :=
  { m with requests := m.requests.erase rindex }

/-- `SyncRequest::notify` of a request, with its result. -/
def notify (m : ReplicaRequestMap) (ticket : ℕ) (result : Bool) : ReplicaRequestMap :=
  { m with answers := (ticket, result) :: m.answers }

/-- `ReplicaRequestMap::clear`: notifies all writers with a negative result. -/
def clear (m : ReplicaRequestMap) : ReplicaRequestMap :=
  { requests := ∅
    answers := m.requests.entries.filterMap (fun e => e.2.map (fun rr => (rr.ticket, false)))
      ++ m.answers }

/-- `ReplicaRequestMap::is_replicable`: no writer is about to register the index. -/
def isReplicable (m : ReplicaRequestMap) (rindex : ℕ) : Bool :=
  match m.requests.lookup rindex with
  | some none => false
  | _ => true

end ReplicaRequestMap

/-! ## The state of a server -/

/-- `RaftManager::State`. -/
inductive RaftState where
  | solo
  | candidate
  | follower
  | leader
  deriving DecidableEq, Repr

/-- The attributes `TERM` and `VOTEDFOR` of `raft_state`. -/
structure RaftAttributes where
  term : ℕ
  votedfor : Option ServerId
  deriving DecidableEq, Repr

/-- `raft_state` as it is written to the database, with the number of changes made to it
before. -/
structure Snapshot where
  attributes : RaftAttributes
  changes : ℕ
  deriving DecidableEq, Repr

/-- The fields of `RaftManager` that `raft_mutex` protects. -/
structure RaftManager where
  state : RaftState
  term : ℕ
  votedfor : Option ServerId
  raftState : RaftAttributes
  /-- History variable: the number of changes of `raftState`. -/
  changes : ℕ
  servers : List ServerId
  numServers : ℕ
  commit : ℕ
  next : AList (fun _ : ServerId => ℕ)
  matchIndex : AList (fun _ : ServerId => ℕ)
  requests : ReplicaRequestMap
  reconciling : Bool
  /-- The followers whose replica thread has a pending request. -/
  pending : List ServerId
  deriving DecidableEq

namespace RaftManager

/-- The text of `raft_state` that a thread takes out of the lock. -/
def snapshot (r : RaftManager) : Snapshot := ⟨r.raftState, r.changes⟩

/-- `raft_state.replace` of the two attributes. -/
def replaceState (r : RaftManager) (a : RaftAttributes) : RaftManager :=
  { r with raftState := a, changes := r.changes + 1 }

/-- The critical section of `RaftManager::follower`.  `lapplied` is the value that
`setup_index` returned before; the snapshot is empty when the term does not change. -/
def follower (r : RaftManager) (t lapplied : ℕ) : RaftManager × Option Snapshot :=
  let r₁ := { r with state := .follower, pending := [] }
  let r₂ := if r.term < t then
      { r₁ with term := t, votedfor := none }.replaceState ⟨t, none⟩
    else r₁
  ({ r₂ with commit := lapplied, next := ∅, matchIndex := ∅, requests := r.requests.clear },
    if r.term < t then some r₂.snapshot else none)

/-- The critical section of `RaftManager::update_votedfor`; `none` if the vote is not
granted. -/
def updateVotedfor (r : RaftManager) (c : ServerId) : Option (RaftManager × Snapshot) :=
  if r.votedfor ≠ none ∧ r.votedfor ≠ some c then none
  else
    let r' := { r with votedfor := some c }.replaceState { r.raftState with votedfor := some c }
    some (r', r'.snapshot)

/-- The critical section of `RaftManager::timer_action` for a follower that got no
heartbeat. -/
def timerAction (r : RaftManager) : Option RaftManager :=
  if r.state = .follower then some { r with state := .candidate } else none

/-- The first critical section of the loop of `RaftManager::request_vote`; `none` if the
server is no candidate any more. -/
def requestVote (r : RaftManager) (me : ServerId) (servers : List ServerId) :
    Option (RaftManager × Snapshot) :=
  if r.state ≠ .candidate then none
  else
    let r' := { r with
      servers := servers
      numServers := servers.length
      term := r.term + 1
      votedfor := some me }.replaceState ⟨r.term + 1, some me⟩
    some (r', r'.snapshot)

/-- The last critical section of the loop of `RaftManager::request_vote`, after a lost
election. -/
def resetVotedfor (r : RaftManager) : Option (RaftManager × Snapshot) :=
  if r.state ≠ .candidate then none
  else
    let r' := { r with votedfor := none }.replaceState { r.raftState with votedfor := none }
    some (r', r'.snapshot)

/-- The critical section of `RaftManager::leader`.  `applied` and `index` are the values
that `setup_index` returned before; the second component is the index the reconciliation
thread replicates, if there is one. -/
def leader (r : RaftManager) (me : ServerId) (applied index : ℕ) :
    Option (RaftManager × Option ℕ) :=
  if r.state ≠ .candidate then none
  else
    let nextIndex := if applied < index then index else index + 1
    let followers := r.servers.filter (fun f => f ≠ me)
    some ({ r with
      state := .leader
      commit := applied
      reconciling := if applied < index then true else r.reconciling
      next := followers.foldl (fun m f => m.insert f nextIndex) ∅
      matchIndex := followers.foldl (fun m f => m.insert f 0) ∅
      requests := r.requests.clear
      pending := [] }, if applied < index then some nextIndex else none)

/-- The number of followers that `replicate_log` takes to hold the record at `index`. -/
def replicas (r : RaftManager) (index : ℕ) : ℕ :=
  (r.next.entries.filter (fun e => index < e.2)).length

/-- `RaftManager::replicate_log`, for the request `ticket` of the record at `index`.  The
second component is the value assigned to `commit`, if any. -/
def replicateLog (r : RaftManager) (ticket index : ℕ) : RaftManager × Option ℕ :=
  if r.state ≠ .leader then
    ({ r with requests := (r.requests.notify ticket false).remove index }, none)
  else
    let toCommit : ℤ := (r.numServers / 2 : ℕ) - (r.replicas index : ℤ)
    let r₁ := { r with
      pending := r.pending ++ (r.next.entries.filter (fun e : (_ : ServerId) × ℕ => e.2 ≤ index)).map Sigma.fst }
    if toCommit ≤ 0 then
      ({ r₁ with
        commit := index
        requests := (r.requests.notify ticket true).remove index }, some index)
    else
      let rr : ReplicaRequest :=
        { ticket := ticket, index := index, toCommit := toCommit, replicas := 1 }
      ({ r₁ with requests := r.requests.set index rr }, none)

/-- `RaftManager::replicate_allocate`. -/
def replicateAllocate (r : RaftManager) (index : ℕ) : RaftManager :=
  { r with requests := r.requests.allocate index }

/-- The critical section of `RaftManager::replicate_success`.  `dbLindex` is the last index
of the log, read before; the second component is the value assigned to `commit`, if any. -/
def replicateSuccess (r : RaftManager) (f : ServerId) (dbLindex : ℕ) : RaftManager × Option ℕ :=
  match r.next.lookup f, r.matchIndex.lookup f with
  | some i, some _ =>
    let (requests, toCommit) := r.requests.addReplica i
    let r₁ := { r with
      matchIndex := r.matchIndex.insert f i
      next := r.next.insert f (i + 1)
      requests := requests
      commit := if toCommit = 0 then i else r.commit }
    let again := i < dbLindex ∧ r₁.state = .leader ∧ r₁.requests.isReplicable (i + 1)
    ({ r₁ with pending := if again then r₁.pending ++ [f] else r₁.pending },
      if toCommit = 0 then some i else none)
  | _, _ => (r, none)

/-- `RaftManager::replicate_failure`. -/
def replicateFailure (r : RaftManager) (f : ServerId) : RaftManager :=
  let r₁ := match r.next.lookup f with
    | some i => if 0 < i then { r with next := r.next.insert f (i - 1) } else r
    | none => r
  if r₁.state = .leader then { r₁ with pending := r₁.pending ++ [f] } else r₁

/-- `RaftManager::update_commit`: the second component is the updated commit index. -/
def updateCommit (r : RaftManager) (leaderCommit index : ℕ) : RaftManager × ℕ :=
  let c := if r.commit < leaderCommit then
      (if index < leaderCommit then index else leaderCommit)
    else r.commit
  ({ r with commit := c }, c)

/-- The critical section of `RaftManager::add_server`.  `logIndex` is the last index of the
log, read before. -/
def addServer (r : RaftManager) (f : ServerId) (logIndex : ℕ) : RaftManager :=
  if r.state ≠ .leader then r
  else
    { r with
      numServers := r.numServers + 1
      servers := if f ∈ r.servers then r.servers else r.servers ++ [f]
      next := if f ∈ r.next then r.next else r.next.insert f (logIndex + 1)
      matchIndex := if f ∈ r.matchIndex then r.matchIndex else r.matchIndex.insert f 0 }

/-- The critical section of `RaftManager::reset_index`.  `logIndex` is the last index of the
log, read before. -/
def resetIndex (r : RaftManager) (f : ServerId) (logIndex : ℕ) : RaftManager :=
  match r.next.lookup f with
  | some _ => { r with next := r.next.insert f (logIndex + 1) }
  | none => r

/-- The constructor of `RaftManager` for a server of a zone, from the attributes in the
database. -/
def construct (a : RaftAttributes) (changes : ℕ) (servers : List ServerId) : RaftManager :=
  { state := .follower, term := a.term, votedfor := a.votedfor, raftState := a,
    changes := changes, servers := servers, numServers := servers.length, commit := 0,
    next := ∅, matchIndex := ∅, requests := ⟨∅, []⟩, reconciling := false, pending := [] }

/-! ## What the replication of the log leaves alone -/

/-- The part of the state that elections depend on is the same. -/
structure SameVote (r r' : RaftManager) : Prop where
  state : r'.state = r.state
  term : r'.term = r.term
  votedfor : r'.votedfor = r.votedfor
  raftState : r'.raftState = r.raftState
  changes : r'.changes = r.changes
  servers : r'.servers = r.servers
  numServers : r'.numServers = r.numServers

theorem sameVote_replicateLog (r : RaftManager) (ticket i : ℕ) :
    SameVote r (r.replicateLog ticket i).1 := by
  unfold replicateLog
  split
  · exact ⟨rfl, rfl, rfl, rfl, rfl, rfl, rfl⟩
  · dsimp only
    split <;> exact ⟨rfl, rfl, rfl, rfl, rfl, rfl, rfl⟩

theorem sameVote_replicateSuccess (r : RaftManager) (f : ServerId) (i : ℕ) :
    SameVote r (r.replicateSuccess f i).1 := by
  unfold replicateSuccess
  split <;> exact ⟨rfl, rfl, rfl, rfl, rfl, rfl, rfl⟩

theorem sameVote_replicateFailure (r : RaftManager) (f : ServerId) :
    SameVote r (r.replicateFailure f) := by
  unfold replicateFailure
  cases r.next.lookup f with
  | none =>
    dsimp only
    split <;> exact ⟨rfl, rfl, rfl, rfl, rfl, rfl, rfl⟩
  | some i =>
    by_cases hi : 0 < i
    · simp only [hi, if_true]
      split <;> exact ⟨rfl, rfl, rfl, rfl, rfl, rfl, rfl⟩
    · simp only [hi, if_false]
      split <;> exact ⟨rfl, rfl, rfl, rfl, rfl, rfl, rfl⟩

theorem sameVote_resetIndex (r : RaftManager) (f : ServerId) (i : ℕ) :
    SameVote r (r.resetIndex f i) := by
  unfold resetIndex
  split <;> exact ⟨rfl, rfl, rfl, rfl, rfl, rfl, rfl⟩

end RaftManager
