/-
# The order of the commits of a leader

A leader sets its commit index to the record that has just got its last missing replica.  Nothing
in the code compares this index with the one before.  The commit index still never decreases while
a server is leader, in every run whose steps meet `OrderOk`: the writers call `replicate_log` in
the order in which they have inserted their records, an insertion that fails is not taken for a
duplicate, and no late handler changes the log or the commit index of a leader.

The reason is the count of replicas.  A follower that is past a record is past all the records
before it, so an earlier record never has fewer replicas (`replicas_anti`), and it has got its
last replica first.
-/
import OpenNebula.ElectionSafety
import OpenNebula.ReplicaCount
import OpenNebula.CommitQuorum

open Transition

/-! ## The condition on the steps -/

/-- The index that a thread is about to register. -/
def Thread.rindex : Thread → Option ℕ
  | .register i _ => some i
  | _ => none

/-- A writer waits for the record at `i`. -/
def RaftManager.isRegistered (r : RaftManager) (i : ℕ) : Prop :=
  ∃ rr, r.requests.requests.lookup i = some (some rr)

instance (r : RaftManager) (i : ℕ) : Decidable (r.isRegistered i) :=
  decidable_of_iff ((r.requests.requests.lookup i).join.isSome) (by
    unfold RaftManager.isRegistered
    cases r.requests.requests.lookup i with
    | none => simp
    | some o => cases o <;> simp)

/-- Where the order of the commits depends on what the other threads have done in between. -/
def InOrder (n : Node) (env : Env) : Thread → Prop
  -- the log is what `setup_index` has found, and no writer of an earlier leadership is left
  | .leaderLock _ _ _ index =>
    n.server.raft.state = .candidate → n.server.logdb.nextIndex = index + 1 ∧
      (n.server.logdb.lookup index).isSome ∧ ∀ t ∈ n.all, t.rindex = none
  -- the handlers of `replicate_log` run on followers
  | .replDelete _ _ | .replInsert _ _ | .replCommit _ _ | .replHeartbeatCommit _ _ _ =>
    n.server.raft.state ≠ .leader
  -- a follower is not taken back to a record that a writer waits for
  | .replicaFailure f _ _ =>
    n.server.raft.state = .leader → ¬ n.server.raft.isRegistered (n.server.raft.nextOf f - 1)
  -- the writers register in the order of their records
  | .register i _ =>
    n.server.raft.state = .leader → ∀ t ∈ n.all, ∀ j ∈ t.rindex, i ≤ j
  -- the check for a duplicate finds the record, or reports that it is not there
  | .writeInsert _ _ _ =>
    env.dbOk = true ∨ n.server.logdb.Finds env.backend n.server.logdb.nextIndex
  | .addServerLock _ _ | .resetIndexLock _ _ =>
    n.server.raft.state = .leader → ∀ e ∈ n.server.raft.requests.requests.entries, ¬ e.2.isSome
  | _ => True

instance (n : Node) (env : Env) (t : Thread) : Decidable (InOrder n env t) := by
  apply Thread.casesOn (motive := fun t => Decidable (InOrder n env t)) t <;> intros <;>
    dsimp only [InOrder] <;> infer_instance

/-- The steps that the order of the commits needs. -/
def OrderOk (σ : Cluster) (e : Event) : Prop :=
  σ.Running e (fun s t env => InOrder (σ.node s) env t)

instance (σ : Cluster) (e : Event) : Decidable (OrderOk σ e) :=
  inferInstanceAs (Decidable (σ.Running e _))

/-! ## The invariant -/

/-- What a leader knows of the records that writers wait for. -/
structure Waiting (v : Server) : Prop where
  commit : v.raft.commit < v.logdb.nextIndex
  last : (v.logdb.lookup (v.logdb.nextIndex - 1)).isSome
  quota : ∀ i rr, v.raft.requests.requests.lookup i = some (some rr) →
    0 < rr.toCommit ∧ rr.toCommit + v.raft.replicas i = (v.raft.numServers / 2 : ℕ) ∧
      v.raft.commit ≤ i ∧ i < v.logdb.nextIndex

/-- A writer about to register the record at `i` comes after the others. -/
structure Later (v : Server) (i : ℕ) : Prop where
  commit : v.raft.commit ≤ i
  next : i < v.logdb.nextIndex
  registered : ∀ j, v.raft.isRegistered j → j ≤ i

/-- No registration and no election is hidden in what a thread does later. -/
def Thread.Inner : Thread → Prop
  | .register _ _ | .leaderLock _ _ _ _ => False
  | .updateRaftState _ k | .followerSetup _ k | .followerLock _ _ k => k.Inner
  | _ => True

/-- What `setup_index` has returned is in order. -/
def Thread.Plain : Thread → Prop
  | .leaderLock _ _ applied index => applied ≤ index
  | .updateRaftState _ k | .followerSetup _ k | .followerLock _ _ k => k.Inner
  | _ => True

/-- The invariant of one server. -/
structure Orderly (n : Node) : Prop where
  plain : ∀ t ∈ n.all, t.Plain
  waiting : n.server.raft.state = .leader → Waiting n.server
  later : n.server.raft.state = .leader → ∀ t ∈ n.all, ∀ i ∈ t.rindex, Later n.server i

theorem Thread.Inner.plain {t : Thread} (h : t.Inner) : t.Plain := by
  cases t with
  | leaderLock => exact absurd h id
  | updateRaftState x k => exact h
  | followerSetup t k => exact h
  | followerLock t a k => exact h
  | _ => trivial

theorem Thread.Inner.rindex {t : Thread} (h : t.Inner) : t.rindex = none := by
  cases t with
  | register => exact absurd h id
  | _ => rfl

/-! ## The operations of the log -/

namespace LogDB

/-- `setup_index` does not lose the last record. -/
theorem nextIndex_setupIndex {l : LogDB} (h : (l.lookup (l.nextIndex - 1)).isSome) (b : Backend) :
    l.nextIndex ≤ (l.setupIndex b).1.nextIndex ∧
      ((l.setupIndex b).1.lookup ((l.setupIndex b).1.nextIndex - 1)).isSome := by
  obtain ⟨r, hr⟩ := Option.isSome_iff_exists.mp h
  obtain ⟨hmem, hidx⟩ := lookup_some hr
  obtain ⟨m, hm⟩ := exists_maxIndex (p := fun _ => true) hmem rfl
  obtain ⟨⟨q, hq, -, hqi⟩, hmax⟩ := maxIndex_spec hm
  have hle := hmax r hmem rfl
  have htable : (l.setupIndex b).1.table = l.table := by
    unfold setupIndex
    rw [hm]
    dsimp only
    cases l.maxIndex LogRow.applied with
    | none => rfl
    | some a => dsimp only; split <;> rfl
  have hnext : (l.setupIndex b).1.nextIndex = m + 1 := by
    unfold setupIndex
    rw [hm]
    dsimp only
    cases l.maxIndex LogRow.applied with
    | none => rfl
    | some a => dsimp only; split <;> rfl
  refine ⟨by omega, ?_⟩
  rw [hnext, Nat.add_sub_cancel, ← hqi, lookup, htable, ← lookup]
  exact lookup_isSome_of_mem hq

/-- The index applied last is not after the last index. -/
theorem setupIndex_applied_le (l : LogDB) (b : Backend) :
    (l.setupIndex b).2.1 ≤ (l.setupIndex b).2.2 := by
  show (l.maxIndex LogRow.applied).getD 0 ≤ (l.maxIndex (fun _ => true)).getD uint64Max
  cases ha : l.maxIndex LogRow.applied with
  | none => exact Nat.zero_le _
  | some a =>
    obtain ⟨⟨q, hq, -, hqi⟩, -⟩ := maxIndex_spec ha
    obtain ⟨m, hm⟩ := exists_maxIndex (p := fun _ => true) hq rfl
    have := (maxIndex_spec hm).2 q hq rfl
    rw [hm]
    show a ≤ m
    omega

/-- The leader's append: the record gets the next index. -/
theorem nextIndex_insertLogRecord {l l' : LogDB} {dbOk : Bool} {term i : ℕ} {sql : Sql}
    {fed : Option ℕ} {b : Backend} (hf : dbOk = true ∨ l.Finds b l.nextIndex)
    (h : l.insertLogRecord dbOk term sql 0 fed b = some (l', some i)) :
    i = l.nextIndex ∧ l'.nextIndex = l.nextIndex + 1 ∧ (l'.lookup l.nextIndex).isSome := by
  rcases insertLogRecord_cases h with ⟨hnone, -⟩ | ⟨hi, hnext, -, -, -, hrow⟩
  · exact absurd hnone (by simp)
  · refine ⟨Option.some.inj hi, hnext, ?_⟩
    rcases hrow with ⟨-, -, row, hidx, -, -, -, -, htable⟩ | ⟨hknown, -, -, htable⟩
    · rw [lookup_insertRow htable, if_pos hidx.symm]
      rfl
    · rw [lookup, htable, ← lookup]
      exact hknown.isSome hf

end LogDB

/-! ## The operations of the leader -/

namespace RaftManager

variable {r : RaftManager}

/-- The count depends on `next` only. -/
theorem replicas_congr {r' : RaftManager} (h : r'.next = r.next) (i : ℕ) :
    r'.replicas i = r.replicas i := by
  rw [replicas, h, replicas]

/-- `replicate_log` on a leader: it commits at once, or registers the record. -/
theorem replicateLog_leader (hl : r.state = .leader) (ticket i : ℕ) :
    (r.numServers / 2 ≤ r.replicas i ∧ (r.replicateLog ticket i).1.commit = i ∧
        (r.replicateLog ticket i).1.requests.requests = r.requests.requests.erase i ∧
        (r.replicateLog ticket i).2 = some i) ∨
      (∃ rr : ReplicaRequest, 0 < rr.toCommit ∧
        rr.toCommit + r.replicas i = (r.numServers / 2 : ℕ) ∧
        (r.replicateLog ticket i).1.commit = r.commit ∧
        (r.replicateLog ticket i).1.requests.requests = r.requests.requests.insert i (some rr) ∧
        (r.replicateLog ticket i).2 = none) := by
  unfold replicateLog
  rw [if_neg (by simpa using hl)]
  dsimp only
  split
  · rename_i hle
    exact Or.inl ⟨by omega, rfl, rfl, rfl⟩
  · rename_i hgt
    refine Or.inr ⟨_, ?_, ?_, rfl, rfl, rfl⟩
    · show (0 : ℤ) < ((r.numServers / 2 : ℕ) : ℤ) - (r.replicas i : ℤ)
      omega
    · show ((r.numServers / 2 : ℕ) : ℤ) - (r.replicas i : ℤ) + r.replicas i = _
      omega

/-- `replicate_success` keeps the commit index or sets it. -/
theorem commit_replicateSuccess (r : RaftManager) (f : ServerId) (dbLindex : ℕ) :
    (r.replicateSuccess f dbLindex).1.commit = r.commit ∨
      (r.replicateSuccess f dbLindex).2 = some (r.replicateSuccess f dbLindex).1.commit := by
  cases hn : r.next.lookup f with
  | none =>
    rw [replicateSuccess_none (Or.inl hn)]
    exact Or.inl rfl
  | some n =>
  cases hm : r.matchIndex.lookup f with
  | none =>
    rw [replicateSuccess_none (Or.inr hm)]
    exact Or.inl rfl
  | some m =>
  obtain ⟨-, -, -, hc, hres⟩ := replicateSuccess_some hn hm dbLindex
  rw [hc, hres]
  split
  · exact Or.inr rfl
  · exact Or.inl rfl

/-- `add_server` keeps the state, the requests and the commit index. -/
theorem addServer_requests (r : RaftManager) (f : ServerId) (i : ℕ) :
    (r.addServer f i).state = r.state ∧ (r.addServer f i).requests = r.requests ∧
      (r.addServer f i).commit = r.commit := by
  unfold addServer
  split <;> exact ⟨rfl, rfl, rfl⟩

end RaftManager

/-- The state that the count of replicas depends on is kept, and the log only grows. -/
structure Steady (v v' : Server) : Prop where
  commit : v'.raft.commit = v.raft.commit
  next : v.logdb.nextIndex ≤ v'.logdb.nextIndex
  last : (v.logdb.lookup (v.logdb.nextIndex - 1)).isSome →
    (v'.logdb.lookup (v'.logdb.nextIndex - 1)).isSome
  registered : ∀ i rr, v'.raft.requests.requests.lookup i = some (some rr) →
    v.raft.requests.requests.lookup i = some (some rr) ∧
      v'.raft.replicas i = v.raft.replicas i ∧ v'.raft.numServers = v.raft.numServers

theorem Waiting.of_steady {v v' : Server} (h : Waiting v) (hs : Steady v v') : Waiting v' where
  commit := by
    rw [hs.commit]
    exact lt_of_lt_of_le h.commit hs.next
  last := hs.last h.last
  quota := by
    intro i rr hrr
    obtain ⟨hold, hrep, hn⟩ := hs.registered i rr hrr
    obtain ⟨h1, h2, h3, h4⟩ := h.quota i rr hold
    rw [hrep, hn, hs.commit]
    exact ⟨h1, h2, h3, lt_of_lt_of_le h4 hs.next⟩

theorem Later.of_steady {v v' : Server} {i : ℕ} (h : Later v i) (hs : Steady v v') :
    Later v' i where
  commit := hs.commit ▸ h.commit
  next := lt_of_lt_of_le h.next hs.next
  registered := by
    rintro j ⟨rr, hrr⟩
    exact h.registered j ⟨rr, (hs.registered j rr hrr).1⟩

/-- The Raft state that the count depends on, with the same log. -/
theorem Steady.of_raft {v v' : Server} (hdb : v'.logdb = v.logdb)
    (hcommit : v'.raft.commit = v.raft.commit) (hnext : v'.raft.next = v.raft.next)
    (hn : v'.raft.numServers = v.raft.numServers)
    (hreq : ∀ i rr, v'.raft.requests.requests.lookup i = some (some rr) →
      v.raft.requests.requests.lookup i = some (some rr)) : Steady v v' where
  commit := hcommit
  next := hdb ▸ le_rfl
  last := fun h => hdb ▸ h
  registered := fun i rr hrr => ⟨hreq i rr hrr, RaftManager.replicas_congr hnext i, hn⟩

theorem Steady.refl (v : Server) : Steady v v :=
  Steady.of_raft rfl rfl rfl rfl (fun _ _ h => h)

/-- The same Raft state, with a log that has grown. -/
theorem Steady.of_log {v : Server} {db : LogDB} (hnext : v.logdb.nextIndex ≤ db.nextIndex)
    (hlast : (v.logdb.lookup (v.logdb.nextIndex - 1)).isSome →
      (db.lookup (db.nextIndex - 1)).isSome) : Steady v { v with logdb := db } where
  commit := rfl
  next := hnext
  last := hlast
  registered := fun _ _ hrr => ⟨hrr, rfl, rfl⟩

theorem Steady.of_apply (v : Server) (dbOk : Bool) (now : ℕ) (exec : ℕ → SqlError) (c : ℕ)
    (b : Backend) : Steady v { v with logdb := (v.logdb.applyLogRecords dbOk now exec c b).1 } := by
  have hmarks := v.logdb.applyLogRecords_marks dbOk now exec c b
  refine Steady.of_log (le_of_eq hmarks.nextIndex.symm) ?_
  intro h
  rw [hmarks.lookup_isSome, hmarks.nextIndex]
  exact h

/-- `setup_index` on a leader whose last record is there. -/
theorem Waiting.steady_setup {v : Server} (h : Waiting v) (b : Backend) :
    Steady v { v with logdb := (v.logdb.setupIndex b).1 } := by
  obtain ⟨h1, h2⟩ := LogDB.nextIndex_setupIndex h.last b
  exact Steady.of_log h1 (fun _ => h2)

/-- A record that is committed has no registered record before it. -/
theorem Waiting.no_earlier {v : Server} (h : Waiting v) {i j : ℕ} {rr : ReplicaRequest}
    (hj : v.raft.requests.requests.lookup j = some (some rr))
    (hrep : v.raft.numServers / 2 ≤ v.raft.replicas i) (hlt : j < i) : False := by
  obtain ⟨hpos, hq, -⟩ := h.quota j rr hj
  have := v.raft.replicas_anti (le_of_lt hlt)
  omega

/-- **`replicate_log` in order.** -/
theorem Waiting.replicateLog {v : Server} (h : Waiting v) (hl : v.raft.state = .leader) {i : ℕ}
    (hi : Later v i) (tickets ticket : ℕ) :
    Waiting { v with raft := (v.raft.replicateLog ticket i).1, tickets := tickets } ∧
      (∀ k, i ≤ k → Later v k →
        Later { v with raft := (v.raft.replicateLog ticket i).1, tickets := tickets } k) := by
  have hsame := v.raft.sameVote_replicateLog ticket i
  have hrep := RaftManager.replicas_congr (v.raft.replicateLog_next ticket i).1
  rcases RaftManager.replicateLog_leader hl ticket i with
    ⟨hle, hc, hreq, -⟩ | ⟨rr, hpos, hq, hc, hreq, -⟩
  · -- the record has its replicas already: the requests that remain are for later records
    have hold : ∀ j rr, (v.raft.replicateLog ticket i).1.requests.requests.lookup j =
        some (some rr) → v.raft.requests.requests.lookup j = some (some rr) ∧ i ≤ j := by
      intro j rr hj
      rw [hreq] at hj
      by_cases hji : j = i
      · rw [hji, AList.lookup_erase] at hj
        exact absurd hj (by simp)
      · rw [AList.lookup_erase_ne hji] at hj
        refine ⟨hj, ?_⟩
        by_contra hlt
        exact h.no_earlier hj hle (by omega)
    refine ⟨⟨?_, h.last, ?_⟩, ?_⟩
    · show (v.raft.replicateLog ticket i).1.commit < _
      rw [hc]
      exact hi.next
    · intro j rr hj
      obtain ⟨hj', hij⟩ := hold j rr hj
      obtain ⟨h1, h2, -, h4⟩ := h.quota j rr hj'
      show 0 < rr.toCommit ∧ rr.toCommit + (v.raft.replicateLog ticket i).1.replicas j =
        ((v.raft.replicateLog ticket i).1.numServers / 2 : ℕ) ∧
        (v.raft.replicateLog ticket i).1.commit ≤ j ∧ j < _
      rw [hrep, hsame.numServers, hc]
      exact ⟨h1, h2, hij, h4⟩
    · intro k hik hk
      refine ⟨?_, hk.next, ?_⟩
      · show (v.raft.replicateLog ticket i).1.commit ≤ k
        rw [hc]
        exact hik
      · rintro j ⟨rr, hj⟩
        exact hk.registered j ⟨rr, (hold j rr hj).1⟩
  · refine ⟨⟨?_, h.last, ?_⟩, ?_⟩
    · show (v.raft.replicateLog ticket i).1.commit < _
      rw [hc]
      exact h.commit
    · intro j rr' hj
      show 0 < rr'.toCommit ∧ rr'.toCommit + (v.raft.replicateLog ticket i).1.replicas j =
        ((v.raft.replicateLog ticket i).1.numServers / 2 : ℕ) ∧
        (v.raft.replicateLog ticket i).1.commit ≤ j ∧ j < _
      rw [hrep, hsame.numServers, hc]
      have hj' : (v.raft.replicateLog ticket i).1.requests.requests.lookup j = some (some rr') := hj
      rw [hreq] at hj'
      by_cases hji : j = i
      · rw [hji, AList.lookup_insert, Option.some.injEq, Option.some.injEq] at hj'
        rw [hji, ← hj']
        exact ⟨hpos, hq, hi.commit, hi.next⟩
      · rw [AList.lookup_insert_ne hji] at hj'
        exact h.quota j rr' hj'
    · intro k hik hk
      refine ⟨?_, hk.next, ?_⟩
      · show (v.raft.replicateLog ticket i).1.commit ≤ k
        rw [hc]
        exact hk.commit
      · rintro j ⟨rr', hj⟩
        have hj' : (v.raft.replicateLog ticket i).1.requests.requests.lookup j =
          some (some rr') := hj
        rw [hreq] at hj'
        by_cases hji : j = i
        · omega
        · rw [AList.lookup_insert_ne hji] at hj'
          exact hk.registered j ⟨rr', hj'⟩

/-- **`replicate_success` in order**: what it commits is not before the commit index, and no
record that waits is before what it commits. -/
theorem Waiting.replicateSuccess {v : Server} (h : Waiting v) (f : ServerId) (dbLindex : ℕ) :
    Waiting { v with raft := (v.raft.replicateSuccess f dbLindex).1 } ∧
      (∀ k, Later v k → Later { v with raft := (v.raft.replicateSuccess f dbLindex).1 } k) ∧
      (∀ i, (v.raft.replicateSuccess f dbLindex).2 = some i → v.raft.commit ≤ i) := by
  cases hn : v.raft.next.lookup f with
  | none =>
    rw [RaftManager.replicateSuccess_none (Or.inl hn)]
    exact ⟨h, fun _ hk => hk, by simp⟩
  | some n =>
  cases hm : v.raft.matchIndex.lookup f with
  | none =>
    rw [RaftManager.replicateSuccess_none (Or.inr hm)]
    exact ⟨h, fun _ hk => hk, by simp⟩
  | some m =>
  have hsame := v.raft.sameVote_replicateSuccess f dbLindex
  obtain ⟨hnext, -, hreq, hc, hres⟩ := RaftManager.replicateSuccess_some hn hm dbLindex
  have hmem : f ∈ v.raft.next := AList.lookup_isSome.mp (by rw [hn]; rfl)
  have hnf : v.raft.nextOf f = n := by
    rw [RaftManager.nextOf, hn]
    rfl
  obtain ⟨hpass, hbefore⟩ := RaftManager.replicas_pass hn hnext
  have hmove : ∀ j, j ≠ n → (v.raft.replicateSuccess f dbLindex).1.replicas j =
      v.raft.replicas j := by
    intro j hj
    apply RaftManager.replicas_move hmem hnext
    rw [hnf]
    omega
  generalize v.raft.replicateSuccess f dbLindex = res at hsame hnext hreq hc hres hpass hmove ⊢
  obtain ⟨r', c⟩ := res
  dsimp only at hsame hnext hreq hc hres hpass hmove ⊢
  rcases RaftManager.addReplica_cases v.raft.requests n with
    ⟨rr, hrr, h0, hmap, hzero, -⟩ | ⟨rr, hrr, h0, hmap, hzero, -⟩ | ⟨hnone, hmap, hzero⟩
  · -- the last replica of the record: all the records before it have got theirs
    obtain ⟨hpos, hq, hcn, hnn⟩ := h.quota n rr hrr
    rw [if_pos hzero] at hc hres
    have htc : rr.toCommit = 1 := by
      simp only [ReplicaRequest.addReplica, if_pos hpos] at h0
      omega
    have hold : ∀ j rr', r'.requests.requests.lookup j = some (some rr') →
        v.raft.requests.requests.lookup j = some (some rr') ∧ n < j := by
      intro j rr' hj
      rw [hreq, hmap] at hj
      by_cases hjn : j = n
      · rw [hjn, AList.lookup_erase] at hj
        exact absurd hj (by simp)
      · rw [AList.lookup_erase_ne hjn] at hj
        refine ⟨hj, ?_⟩
        by_contra hlt
        obtain ⟨h1, h2, -⟩ := h.quota j rr' hj
        have := hbefore j (by omega)
        omega
    refine ⟨⟨?_, h.last, ?_⟩, ?_, ?_⟩
    · show r'.commit < _
      rw [hc]
      exact hnn
    · intro j rr' hj
      obtain ⟨hj', hlt⟩ := hold j rr' hj
      obtain ⟨h1, h2, -, h4⟩ := h.quota j rr' hj'
      show 0 < rr'.toCommit ∧ rr'.toCommit + r'.replicas j = (r'.numServers / 2 : ℕ) ∧
        r'.commit ≤ j ∧ j < _
      rw [hmove j (by omega), hsame.numServers, hc]
      exact ⟨h1, h2, le_of_lt hlt, h4⟩
    · intro k hk
      refine ⟨?_, hk.next, ?_⟩
      · show r'.commit ≤ k
        rw [hc]
        exact hk.registered n ⟨rr, hrr⟩
      · rintro j ⟨rr', hj⟩
        exact hk.registered j ⟨rr', (hold j rr' hj).1⟩
    · intro i hi
      rw [hres, Option.some.injEq] at hi
      omega
  · obtain ⟨hpos, hq, hcn, hnn⟩ := h.quota n rr hrr
    rw [if_neg hzero] at hc hres
    have hold : ∀ j rr', r'.requests.requests.lookup j = some (some rr') →
        (j = n ∧ rr' = rr.addReplica) ∨
          (j ≠ n ∧ v.raft.requests.requests.lookup j = some (some rr')) := by
      intro j rr' hj
      rw [hreq, hmap] at hj
      by_cases hjn : j = n
      · rw [hjn, AList.lookup_insert, Option.some.injEq, Option.some.injEq] at hj
        exact Or.inl ⟨hjn, hj.symm⟩
      · rw [AList.lookup_insert_ne hjn] at hj
        exact Or.inr ⟨hjn, hj⟩
    have htc : rr.addReplica.toCommit = rr.toCommit - 1 := by
      simp only [ReplicaRequest.addReplica, if_pos hpos]
    refine ⟨⟨?_, h.last, ?_⟩, ?_, ?_⟩
    · show r'.commit < _
      rw [hc]
      exact h.commit
    · intro j rr' hj
      show 0 < rr'.toCommit ∧ rr'.toCommit + r'.replicas j = (r'.numServers / 2 : ℕ) ∧
        r'.commit ≤ j ∧ j < _
      rw [hsame.numServers, hc]
      rcases hold j rr' hj with ⟨rfl, rfl⟩ | ⟨hjn, hj'⟩
      · rw [hpass]
        exact ⟨by omega, by push_cast; omega, hcn, hnn⟩
      · rw [hmove j hjn]
        exact h.quota j rr' hj'
    · intro k hk
      refine ⟨?_, hk.next, ?_⟩
      · show r'.commit ≤ k
        rw [hc]
        exact hk.commit
      · rintro j ⟨rr', hj⟩
        rcases hold j rr' hj with ⟨rfl, -⟩ | ⟨-, hj'⟩
        · exact hk.registered j ⟨rr, hrr⟩
        · exact hk.registered j ⟨rr', hj'⟩
    · intro i hi
      rw [hres] at hi
      exact absurd hi (by simp)
  · rw [if_neg hzero] at hc hres
    have hsteady : Steady v { v with raft := r' } := by
      refine ⟨hc, le_rfl, fun hl => hl, ?_⟩
      intro j rr' hj
      have hj' : r'.requests.requests.lookup j = some (some rr') := hj
      rw [hreq, hmap] at hj'
      have hjn : j ≠ n := by
        rintro rfl
        exact hnone rr' hj'
      exact ⟨hj', hmove j hjn, hsame.numServers⟩
    refine ⟨h.of_steady hsteady, fun k hk => hk.of_steady hsteady, ?_⟩
    intro i hi
    rw [hres] at hi
    exact absurd hi (by simp)

/-- `replicate_failure` that takes the follower back to no record that waits. -/
theorem Steady.replicateFailure {v : Server} {f : ServerId}
    (hfree : ¬ v.raft.isRegistered (v.raft.nextOf f - 1)) :
    Steady v { v with raft := v.raft.replicateFailure f } := by
  have hsame := v.raft.sameVote_replicateFailure f
  obtain ⟨hreq, -, hc, hnext⟩ := v.raft.replicateFailure_cases f
  refine ⟨hc, le_rfl, fun hl => hl, ?_⟩
  intro i rr hrr
  have hrr' : (v.raft.replicateFailure f).requests.requests.lookup i = some (some rr) := hrr
  rw [hreq] at hrr'
  refine ⟨hrr', ?_, hsame.numServers⟩
  rcases hnext with hn | ⟨hf, hn⟩
  · exact RaftManager.replicas_congr hn i
  · apply RaftManager.replicas_move hf hn
    have hne : i ≠ v.raft.nextOf f - 1 := by
      rintro rfl
      exact hfree ⟨rr, hrr'⟩
    omega

/-- A change of the followers while no writer waits. -/
theorem Steady.of_idle {v : Server} {r : RaftManager} (hreq : r.requests = v.raft.requests)
    (hc : r.commit = v.raft.commit)
    (hidle : ∀ e ∈ v.raft.requests.requests.entries, ¬ e.2.isSome) :
    Steady v { v with raft := r } := by
  refine ⟨hc, le_rfl, fun hl => hl, ?_⟩
  intro i rr hrr
  have hrr' : r.requests.requests.lookup i = some (some rr) := hrr
  rw [hreq] at hrr'
  exact absurd rfl (hidle ⟨i, some rr⟩ (AList.mem_lookup_iff.mp hrr'))

/-- A new leader waits for nothing, and its reconciliation thread comes after the commit index. -/
theorem waiting_leader {v : Server} {me : ServerId} {applied index : ℕ} {r : RaftManager}
    {o : Option ℕ} (hr : v.raft.leader me applied index = some (r, o)) (hle : applied ≤ index)
    (hnext : v.logdb.nextIndex = index + 1) (hlast : (v.logdb.lookup index).isSome) :
    Waiting { v with raft := r } ∧ ∀ i ∈ o, Later { v with raft := r } i := by
  unfold RaftManager.leader at hr
  split at hr
  · exact absurd hr (by simp)
  · rw [Option.some.injEq, Prod.mk.injEq] at hr
    obtain ⟨rfl, rfl⟩ := hr
    have hnone : ∀ j rr, ¬ (v.raft.requests.clear.requests.lookup j = some (some rr)) := by
      intro j rr hj
      have hempty : (∅ : AList (fun _ : ℕ => Option ReplicaRequest)).lookup j = some (some rr) := hj
      rw [AList.lookup_empty] at hempty
      exact absurd hempty (by simp)
    refine ⟨⟨?_, ?_, fun j rr hj => absurd hj (hnone j rr)⟩, ?_⟩
    · show applied < v.logdb.nextIndex
      omega
    · show (v.logdb.lookup (v.logdb.nextIndex - 1)).isSome
      rw [hnext, Nat.add_sub_cancel]
      exact hlast
    · intro i hi
      by_cases hlt : applied < index
      · simp only [if_pos hlt, Option.mem_def, Option.some.injEq] at hi
        subst hi
        refine ⟨hle, ?_, ?_⟩
        · show index < v.logdb.nextIndex
          omega
        · rintro j ⟨rr, hj⟩
          exact absurd hj (hnone j rr)
      · simp [hlt] at hi

/-- The record that a leader inserts comes after all the others. -/
theorem Waiting.writeInsert {v : Server} (h : Waiting v) {dbOk : Bool} {t i : ℕ} {sql : Sql}
    {fed : Option ℕ} {db : LogDB} {b : Backend}
    (hf : dbOk = true ∨ v.logdb.Finds b v.logdb.nextIndex)
    (hins : v.logdb.insertLogRecord dbOk t sql 0 fed b = some (db, some i)) :
    Steady v { v with logdb := db, raft := v.raft.replicateAllocate i } ∧
      Later { v with logdb := db, raft := v.raft.replicateAllocate i } i := by
  obtain ⟨rfl, hnext, hlast⟩ := LogDB.nextIndex_insertLogRecord hf hins
  have hreq : ∀ j rr, (v.raft.replicateAllocate v.logdb.nextIndex).requests.requests.lookup j =
      some (some rr) → v.raft.requests.requests.lookup j = some (some rr) :=
    fun j rr hj => RaftManager.lookup_allocate _ _ _ _ hj
  refine ⟨⟨rfl, ?_, ?_, fun j rr hj => ⟨hreq j rr hj, rfl, rfl⟩⟩, ?_, ?_, ?_⟩
  · show v.logdb.nextIndex ≤ db.nextIndex
    omega
  · intro _
    show (db.lookup (db.nextIndex - 1)).isSome
    rw [hnext, Nat.add_sub_cancel]
    exact hlast
  · exact le_of_lt h.commit
  · show v.logdb.nextIndex < db.nextIndex
    omega
  · rintro j ⟨rr, hj⟩
    exact le_of_lt (h.quota j rr (hreq j rr hj)).2.2.2

/-! ## Every step keeps the invariant -/

section Step

variable {s : ServerId} {v : Server} {net : List Msg} {env : Env} {t : Thread} {o : Outcome}

theorem inner_voteNext (servers todo granted : List ServerId) (T n li lt : ℕ) :
    (Thread.voteNext servers T n li lt todo granted).Inner := by
  unfold Thread.voteNext
  split
  · trivial
  · split <;> trivial

theorem inner_dispatch (p : ReplicateParams) (c : ℕ) : (Thread.replDispatch p c).Inner := by
  unfold Thread.replDispatch
  split
  · trivial
  · split
    · trivial
    · split <;> trivial

theorem inner_goto {t' : Thread} (h : Goto s v net env t t') : t'.Inner := by
  cases h with
  | voteAlone => exact inner_voteNext _ _ _ _ _ _ _
  | voteSkip => exact inner_voteNext _ _ _ _ _ _ _
  | voteDenied => exact inner_voteNext _ _ _ _ _ _ _
  | voteGranted _ => exact inner_voteNext _ _ _ _ _ _ _
  | replCandidate _ => exact inner_dispatch _ _
  | replNotCandidate _ => exact inner_dispatch _ _
  | _ => trivial

/-- What a thread does next: it registers a record, it becomes leader, or neither. -/
theorem plain_step (ht : t.Plain) (h : ThreadStep s v net env t o) :
    o.thread.Plain ∧ (o.thread.rindex = none ∨ ∃ sql fed T, t = .writeInsert sql fed T) := by
  have hinner : ∀ {k : Thread} {P : Prop}, k.Inner → k.Plain ∧ (k.rindex = none ∨ P) :=
    fun hk => ⟨hk.plain, Or.inl hk.rindex⟩
  cases h with
  | goto hg => exact hinner (inner_goto hg)
  | updateRaftState x k => exact hinner ht
  | followerSetup t k => exact hinner ht
  | followerNewTerm t a k _ => exact hinner ht
  | followerSameTerm t a k _ => exact hinner ht
  | leaderSetup t granted => exact ⟨v.logdb.setupIndex_applied_le _, Or.inl rfl⟩
  | writeInsert sql fed T db i _ => exact ⟨trivial, Or.inr ⟨sql, fed, T, rfl⟩⟩
  | applyRecords i back =>
    refine hinner ?_
    show (if back then Thread.reconciled else .done).Inner
    split <;> trivial
  | _ => exact hinner trivial

/-- What a thread starts. -/
theorem plain_started (h : ThreadStep s v net env t o) : ∀ t' ∈ o.started, t'.Plain := by
  cases h with
  | leaderLock t granted applied index r i hr =>
    intro t' ht'
    obtain ⟨j, rfl, rfl⟩ := Option.mem_map.mp (Option.mem_toList.mp ht')
    trivial
  | _ => simp [Outcome.mk', Outcome.send]

/-- What a step of a thread leaves on a server that is leader after it. -/
structure StaysOrderly (n : Node) (o : Outcome) : Prop where
  waiting : Waiting o.server
  others : ∀ t' ∈ n.all, ∀ i ∈ t'.rindex, Later o.server i
  next : ∀ i ∈ o.thread.rindex, Later o.server i
  started : ∀ t' ∈ o.started, ∀ i ∈ t'.rindex, Later o.server i
  commit : n.server.raft.state = .leader → n.server.raft.commit ≤ o.server.raft.commit

/-- A step that keeps what the count depends on. -/
theorem Orderly.steady {n : Node} (h : Orderly n) (hl : n.server.raft.state = .leader)
    (hs : Waiting n.server → Steady n.server o.server) (hnext : o.thread.rindex = none)
    (hstarted : o.started = []) : StaysOrderly n o := by
  have hw := h.waiting hl
  have hsteady := hs hw
  refine ⟨hw.of_steady hsteady, ?_, ?_, ?_, fun _ => le_of_eq hsteady.commit.symm⟩
  · intro t' ht' i hi
    exact (h.later hl t' ht' i hi).of_steady hsteady
  · rw [hnext]
    simp
  · rw [hstarted]
    simp

/-- **A step of a thread keeps the order.** -/
theorem Orderly.stays {n : Node} (h : Orderly n) (ht : t ∈ n.all) (hok : InOrder n env t)
    (hstep : ThreadStep s n.server net env t o) (hl : o.server.raft.state = .leader) :
    StaysOrderly n o := by
  obtain ⟨-, hrindex⟩ := plain_step (h.plain t ht) hstep
  have hnext : (∀ sql fed T, t ≠ .writeInsert sql fed T) → o.thread.rindex = none := by
    intro hne
    rcases hrindex with hnone | ⟨sql, fed, T, rfl⟩
    · exact hnone
    · exact absurd rfl (hne sql fed T)
  cases hstep with
  | goto hg => exact h.steady hl (fun _ => Steady.refl _) (inner_goto hg).rindex rfl
  | finish pending reconciling _ =>
    exact h.steady hl (fun _ => Steady.of_raft rfl rfl rfl rfl (fun _ _ hrr => hrr)) rfl rfl
  | reply m => exact h.steady hl (fun _ => Steady.refl _) rfl rfl
  | updateRaftState x k =>
    exact h.steady hl (fun _ => Steady.of_raft rfl rfl rfl rfl (fun _ _ hrr => hrr))
      (hnext (by simp)) rfl
  | followerSetup t k => exact h.steady hl (fun hw => hw.steady_setup _) rfl rfl
  | followerNewTerm t a k _ =>
    exact absurd ((follower_state n.server.raft t a).symm.trans hl) (by simp)
  | followerSameTerm t a k _ =>
    exact absurd ((follower_state n.server.raft t a).symm.trans hl) (by simp)
  | requestVote servers r x hr =>
    obtain ⟨hc, -, rfl⟩ := requestVote_some hr
    exact absurd (hc.symm.trans hl) (by decide)
  | voteSend servers t n li lt f rest granted => exact h.steady hl (fun _ => Steady.refl _) rfl rfl
  | voteLost servers t r x hr =>
    obtain ⟨hc, -, rfl⟩ := resetVotedfor_some hr
    exact absurd (hc.symm.trans hl) (by decide)
  | leaderSetup t granted => exact h.steady hl (fun hw => hw.steady_setup _) rfl rfl
  | leaderLock t granted applied index r i hr =>
    have hcand := (leader_some hr).1
    obtain ⟨hni, hlast, hnone⟩ := hok hcand
    obtain ⟨hw, hlater⟩ := waiting_leader hr (h.plain _ ht) hni hlast
    refine ⟨hw, ?_, by simp [Thread.rindex], ?_, ?_⟩
    · intro t' ht' j hj
      rw [hnone t' ht'] at hj
      exact absurd hj (by simp)
    · intro t' ht' j hj
      cases i with
      | none => simp at ht'
      | some i =>
        simp only [Option.map_some, Option.toList_some, List.mem_singleton] at ht'
        rw [ht'] at hj
        exact hlater j hj
    · intro hlead
      exact absurd (hcand.symm.trans hlead) (by simp)
  | voteCast p c li lt r x _ hr =>
    obtain ⟨-, rfl, -⟩ := updateVotedfor_some hr
    exact h.steady hl (fun _ => Steady.of_raft rfl rfl rfl rfl (fun _ _ hrr => hrr)) rfl rfl
  | heartbeatCommit p c li => exact absurd hl hok
  | replDelete p c => exact absurd hl hok
  | replInsert p c db _ => exact absurd hl hok
  | replCommit p c => exact absurd hl hok
  | replApply p c k =>
    exact h.steady hl (fun _ => Steady.of_apply n.server env.dbOk env.now env.exec k _) rfl rfl
  | replicaSend f e c lr _ => exact h.steady hl (fun _ => Steady.refl _) rfl rfl
  | replicaSuccessLock f e i p =>
    have hl' : n.server.raft.state = .leader :=
      (n.server.raft.sameVote_replicateSuccess f i).state ▸ hl
    obtain ⟨hw, hlater, hcommit⟩ := (h.waiting hl').replicateSuccess f i
    refine ⟨hw, fun t' ht' j hj => hlater j (h.later hl' t' ht' j hj), by simp [Thread.rindex],
      by simp, fun _ => ?_⟩
    rcases n.server.raft.commit_replicateSuccess f i with hsame | hset
    · exact le_of_eq hsame.symm
    · exact hcommit _ hset
  | replicaFailure f e p =>
    have hl' : n.server.raft.state = .leader :=
      (n.server.raft.sameVote_replicateFailure f).state ▸ hl
    exact h.steady hl' (fun _ => Steady.replicateFailure (hok hl')) rfl rfl
  | beatSend f c => exact h.steady hl (fun _ => Steady.refl _) rfl rfl
  | writeInsert sql fed T db i hins =>
    have hw := h.waiting hl
    obtain ⟨hsteady, hlater⟩ := hw.writeInsert hok hins
    refine ⟨hw.of_steady hsteady, fun t' ht' j hj => (h.later hl t' ht' j hj).of_steady hsteady,
      ?_, by simp [Outcome.mk'], fun _ => le_rfl⟩
    intro j hj
    rw [← Option.some.inj hj]
    exact hlater
  | register i back =>
    have hl' : n.server.raft.state = .leader :=
      (n.server.raft.sameVote_replicateLog n.server.tickets i).state ▸ hl
    have hi := h.later hl' _ ht i rfl
    obtain ⟨hw, hlater⟩ := (h.waiting hl').replicateLog hl' hi (n.server.tickets + 1)
      n.server.tickets
    refine ⟨hw, ?_, by simp [Thread.rindex], by simp, fun _ => ?_⟩
    · intro t' ht' j hj
      exact hlater j (hok hl' t' ht' j hj) (h.later hl' t' ht' j hj)
    · rcases RaftManager.replicateLog_leader hl' n.server.tickets i with
        ⟨-, hc, -⟩ | ⟨rr, -, -, hc, -⟩
      · exact hi.commit.trans (le_of_eq hc.symm)
      · exact le_of_eq hc.symm
  | applyRecords i back =>
    exact h.steady hl (fun _ => Steady.of_apply n.server env.dbOk env.now env.exec i _)
      (hnext (by simp)) rfl
  | addServerLock f i =>
    obtain ⟨hst, hreq, hc⟩ := n.server.raft.addServer_requests f i
    have hl' : n.server.raft.state = .leader := hst ▸ hl
    exact h.steady hl' (fun _ => Steady.of_idle hreq hc (hok hl')) rfl rfl
  | resetIndexLock f i =>
    have hl' : n.server.raft.state = .leader :=
      (n.server.raft.sameVote_resetIndex f i).state ▸ hl
    have hkeep : (n.server.raft.resetIndex f i).requests = n.server.raft.requests ∧
        (n.server.raft.resetIndex f i).commit = n.server.raft.commit := by
      rcases n.server.raft.resetIndex_cases f i with heq | ⟨-, heq⟩
      · rw [heq]
        exact ⟨rfl, rfl⟩
      · rw [heq]
        exact ⟨rfl, rfl⟩
    exact h.steady hl' (fun _ => Steady.of_idle hkeep.1 hkeep.2 (hok hl')) rfl rfl

end Step

section Run

variable {σ σ' : Cluster} {e : Event}

/-- **Every step of the zone keeps the order** and takes no leader back. -/
theorem orderly_move {w w' : World} (h : ∀ s, Orderly (σ.node s)) (hok : OrderOk σ e)
    (hmove : Cluster.Move w σ e σ' w') (s : ServerId) :
    Orderly (σ'.node s) ∧ ((σ.node s).server.raft.state = .leader →
      (σ'.node s).server.raft.state = .leader →
      (σ.node s).server.raft.commit ≤ (σ'.node s).server.raft.commit) := by
  cases hmove.node s with
  | same heq =>
    rw [heq]
    exact ⟨h s, fun _ _ => le_rfl⟩
  | timeout servers htimer hstate heq =>
    rw [heq]
    refine ⟨⟨?_, fun hl => absurd hl (by simp), fun hl => absurd hl (by simp)⟩,
      fun hl => absurd (hstate.symm.trans hl) (by decide)⟩
    intro t ht
    rcases List.mem_cons.mp ht with rfl | ht
    · trivial
    · exact (h s).plain t (List.mem_cons_of_mem _ ht)
  | step t env o hrun hmem hstep hserver hall _ _ =>
    have hin := Cluster.Running.elim hok hrun
    have hplain := (plain_step ((h s).plain t hmem) hstep).1
    rw [hserver]
    refine ⟨⟨?_, ?_, ?_⟩, fun hl hl' => ((h s).stays hmem hin hstep hl').commit hl⟩
    · intro t' ht'
      rcases hall t' ht' with hold | rfl | hnew
      · exact (h s).plain t' hold
      · exact hplain
      · exact plain_started hstep t' hnew
    · rw [hserver]
      exact fun hl => ((h s).stays hmem hin hstep hl).waiting
    · rw [hserver]
      intro hl t' ht' i hi
      have hstays := (h s).stays hmem hin hstep hl
      rcases hall t' ht' with hold | rfl | hnew
      · exact hstays.others t' hold i hi
      · exact hstays.next i hi
      · exact hstays.started t' hnew i hi
  | start t pending hstart heq =>
    have hsteady : Steady (σ.node s).server (σ'.node s).server := by
      rw [heq]
      exact Steady.of_raft rfl rfl rfl rfl (fun _ _ hrr => hrr)
    have hstate : (σ'.node s).server.raft.state = (σ.node s).server.raft.state := by rw [heq]
    have hthreads : ∀ t' ∈ (σ'.node s).all,
        t' ∈ (σ.node s).all ∨ (t'.Plain ∧ t'.rindex = none) := by
      rw [heq]
      intro t' ht'
      rcases List.mem_cons.mp ht' with rfl | ht'
      · exact Or.inl List.mem_cons_self
      · refine (List.mem_append.mp ht').imp (List.mem_cons_of_mem _) ?_
        intro hnew
        rw [List.mem_singleton.mp hnew]
        cases hstart <;> exact ⟨trivial, rfl⟩
    refine ⟨⟨?_, ?_, ?_⟩, fun _ _ => le_of_eq hsteady.commit.symm⟩
    · intro t' ht'
      exact (hthreads t' ht').elim ((h s).plain t') And.left
    · rw [hstate]
      exact fun hl => ((h s).waiting hl).of_steady hsteady
    · rw [hstate]
      intro hl t' ht' i hi
      rcases hthreads t' ht' with hold | ⟨-, hnone⟩
      · exact ((h s).later hl t' hold i hi).of_steady hsteady
      · rw [hnone] at hi
        exact absurd hi (by simp)
  | restart servers now text heq =>
    rw [heq]
    have hstate : (Cluster.restarted (σ.node s).server servers now text).raft.state ≠ .leader := by
      simp [Cluster.restarted, RaftManager.construct]
    refine ⟨⟨?_, fun hl => absurd hl hstate, fun hl => absurd hl hstate⟩,
      fun _ hl => absurd hl hstate⟩
    intro t ht
    rw [List.mem_singleton.mp ht]
    trivial

theorem orderly_init (zone : List ServerId) (text : ServerId → Sql) (s : ServerId) :
    Orderly ((Cluster.init zone text).node s) := by
  have hstate : ((Cluster.init zone text).node s).server.raft.state ≠ .leader := by
    simp [Cluster.init, RaftManager.construct]
  refine ⟨?_, fun hl => absurd hl hstate, fun hl => absurd hl hstate⟩
  intro t ht
  rw [List.mem_singleton.mp ht]
  trivial

theorem orderly_reach {zone : List ServerId} {text : ServerId → Sql}
    (hrun : Reach Cluster.step OrderOk (Cluster.init zone text) σ) :
    ∀ s, Orderly (σ.node s) := by
  refine hrun.inv (P := fun σ => ∀ s, Orderly (σ.node s)) (orderly_init zone text) ?_
  intro σ₁ e σ₂ h hok hstep s
  obtain ⟨w, hmove⟩ := Cluster.step_cases World.init hstep
  exact (orderly_move h hok hmove s).1

/-- A server observes its own commits. -/
theorem server_of_obs {s s' : ServerId} {v : Server} {net : List Msg} {env : Env} {t : Thread}
    {o : Outcome} (h : ThreadStep s v net env t o) {T i : ℕ} {record : Option (ℕ × Sql)}
    (hob : Obs.commit s' T i record ∈ o.obs) : s' = s := by
  cases h with
  | replicaSuccessLock f e k p =>
    simp only [List.mem_map, Obs.commit.injEq] at hob
    obtain ⟨j, -, hs, -⟩ := hob
    exact hs.symm
  | register k back =>
    simp only [List.mem_map, Obs.commit.injEq] at hob
    obtain ⟨j, -, hs, -⟩ := hob
    exact hs.symm
  | replApply p c k => simp at hob
  | applyRecords k back => simp at hob
  | _ => simp [Outcome.mk', Outcome.send] at hob

/-- The commit index that is observed is the one that is set. -/
theorem commit_of_obs {s s' : ServerId} {v : Server} {net : List Msg} {env : Env} {t : Thread}
    {o : Outcome} (h : ThreadStep s v net env t o) (hl : v.raft.state = .leader) {T i : ℕ}
    {record : Option (ℕ × Sql)} (hob : Obs.commit s' T i record ∈ o.obs) :
    o.server.raft.commit = i ∧ o.server.raft.state = .leader := by
  cases h with
  | replicaSuccessLock f e k p =>
    simp only [List.mem_map, Option.mem_toList, Obs.commit.injEq] at hob
    obtain ⟨j, hj, -, -, rfl, -⟩ := hob
    have hsame := v.raft.sameVote_replicateSuccess f k
    refine ⟨?_, hsame.state.trans hl⟩
    cases hn : v.raft.next.lookup f with
    | none =>
      rw [RaftManager.replicateSuccess_none (Or.inl hn)] at hj
      exact absurd hj (by simp)
    | some n =>
    cases hm : v.raft.matchIndex.lookup f with
    | none =>
      rw [RaftManager.replicateSuccess_none (Or.inr hm)] at hj
      exact absurd hj (by simp)
    | some m =>
    obtain ⟨-, -, -, hc, hres⟩ := RaftManager.replicateSuccess_some hn hm k
    show (v.raft.replicateSuccess f k).1.commit = j
    rw [hres] at hj
    rw [hc]
    split at hj
    · rename_i hzero
      rw [if_pos hzero]
      exact Option.some.inj hj
    · exact absurd hj (by simp)
  | register k back =>
    simp only [List.mem_map, Option.mem_toList, Obs.commit.injEq] at hob
    obtain ⟨j, hj, -, -, rfl, -⟩ := hob
    have hsame := v.raft.sameVote_replicateLog v.tickets k
    refine ⟨?_, hsame.state.trans hl⟩
    show (v.raft.replicateLog v.tickets k).1.commit = j
    rcases RaftManager.replicateLog_leader hl v.tickets k with
      ⟨-, hc, -, hres⟩ | ⟨rr, -, -, -, -, hres⟩
    · rw [hres, Option.some.injEq] at hj
      rw [hc, hj]
    · rw [hres] at hj
      exact absurd hj (by simp)
  | replApply p c k => simp at hob
  | applyRecords k back => simp at hob
  | _ => simp [Outcome.mk', Outcome.send] at hob

end Run

/-! ## Order of the commits -/

/-- **Order of the commits.**  In every run whose steps meet `OrderOk`, while a server is leader
its commit index does not decrease, and each index that `replicate_log` or `replicate_success`
assigns to it is at least the one before. -/
theorem commit_monotone_of_orderOk {zone : List ServerId} {text : ServerId → Sql}
    {σ₀ σ : Cluster} {s : ServerId}
    (hinit : Reach Cluster.step OrderOk (Cluster.init zone text) σ₀)
    (hrun : Reach Cluster.step (fun σ e => OrderOk σ e ∧ (σ.node s).server.raft.state = .leader)
      σ₀ σ)
    (hl : (σ.node s).server.raft.state = .leader) :
    (σ₀.node s).server.raft.commit ≤ (σ.node s).server.raft.commit ∧
      ∀ e σ' T i record, OrderOk σ e → σ.step e = some σ' →
        σ'.obs = .commit s T i record :: σ.obs →
        (σ.node s).server.raft.commit ≤ i ∧ (σ'.node s).server.raft.commit = i := by
  have hσ := orderly_reach (hinit.trans (hrun.mono (fun _ _ h => h.1)))
  constructor
  · have hkeep := hrun.inv (P := fun σ => (∀ s, Orderly (σ.node s)) ∧
      ((σ.node s).server.raft.state = .leader →
        (σ₀.node s).server.raft.commit ≤ (σ.node s).server.raft.commit))
      ⟨orderly_reach hinit, fun _ => le_rfl⟩ ?_
    · exact hkeep.2 hl
    · rintro σ₁ e σ₂ ⟨h, hle⟩ ⟨hok, hl₁⟩ hstep
      obtain ⟨w, hmove⟩ := Cluster.step_cases World.init hstep
      have hnode := orderly_move h hok hmove
      exact ⟨fun s' => (hnode s').1, fun hl₂ => (hle hl₁).trans ((hnode s).2 hl₁ hl₂)⟩
  · intro e σ' T i record hok hstep hobs
    obtain ⟨w, hmove⟩ := Cluster.step_cases World.init hstep
    have hmono := (orderly_move hσ hok hmove s).2 hl
    obtain ⟨s', t, env, o, -, ht, hob, hserver⟩ := hmove.commit_cases hobs
    -- the thread that runs is one of the server `s`
    by_cases hs : s = s'
    · subst hs
      obtain ⟨hcommit, hl'⟩ := commit_of_obs ht hl hob
      rw [hserver] at hmono ⊢
      exact ⟨hcommit ▸ hmono hl', hcommit⟩
    · exact absurd (server_of_obs ht hob) hs

/-- Two writers register in order; server `1` acknowledges both records, the first is committed
and the reply for the second has arrived. -/
def orderedRun : List (ℕ × Event) :=
  electionRun.append [(1, .write 0 ['X'] none), (4, .thread 0 0 .calm), (1, .write 0 ['Y'] none),
    (4, .thread 0 1 .calm), (1, .wake 0 1), (4, .thread 0 2 .calm),
    (1, .recvReplicate 1 ⟨0, 1, 0, 1, 1, 1, 0, 0, none, ['X']⟩), (8, .thread 1 1 .calm),
    (1, .thread 0 2 (.answer true 1)), (2, .thread 0 2 .calm), (1, .wake 0 1),
    (4, .thread 0 3 .calm), (1, .recvReplicate 1 ⟨0, 1, 1, 1, 2, 1, 1, 1, none, ['Y']⟩),
    (8, .thread 1 2 .calm), (1, .thread 0 3 (.answer true 1)), (1, .thread 0 3 .calm)]

theorem commit_monotone_orderedRun :
    ∃ σ σ', Reach Cluster.step OrderOk (Cluster.init [0, 1, 2] (fun _ => ['0'])) σ ∧
      σ.step (.thread 0 3 .calm) = some σ' ∧
      (σ.node 0).server.raft.commit = 1 ∧ (σ'.node 0).server.raft.commit = 2 := by
  have hrun : ((runChecked Cluster.step OrderOk (Cluster.init [0, 1, 2] (fun _ => ['0']))
      (repeated orderedRun)).map (fun σ => (decide (OrderOk σ (.thread 0 3 .calm)), σ.obs,
        (σ.step (.thread 0 3 .calm)).map Cluster.obs, (σ.node 0).server.raft.commit,
        (σ.node 0).server.raft.state))) =
      some (true, [.applied 1 1 1 ['X'], .commit 0 1 1 (some (1, ['X']))],
        some [.commit 0 1 2 (some (1, ['Y'])), .applied 1 1 1 ['X'],
          .commit 0 1 1 (some (1, ['X']))], 1, .leader) := by decide
  obtain ⟨σ, hσ, heq⟩ := Option.map_eq_some_iff.mp hrun
  simp only [Prod.mk.injEq, decide_eq_true_eq] at heq
  obtain ⟨hok, hobs, hstep, hcommit, hl⟩ := heq
  obtain ⟨σ', hσ', hobs'⟩ := Option.map_eq_some_iff.mp hstep
  have hreach := reach_of_runChecked _ hσ
  have hmono := (commit_monotone_of_orderOk hreach Reach.refl hl).2 _ σ' 1 2 _ hok hσ'
    (hobs'.trans (by rw [hobs]))
  exact ⟨σ, σ', hreach, hσ', hcommit, hmono.2⟩

/-- The run in which the commit index decreases.  The writers of `X` and `Y` have inserted their
records; that of `Y` registers first, and both records are acknowledged by server `1`.  Then the
writer of `X` calls `replicate_log`. -/
def lateWriterRun : List (ℕ × Event) :=
  electionRun.append [(1, .write 0 ['X'] none), (3, .thread 0 0 .calm), (1, .write 0 ['Y'] none),
    (4, .thread 0 1 .calm), (1, .wake 0 1), (4, .thread 0 2 .calm),
    (1, .recvReplicate 1 ⟨0, 1, 0, 1, 1, 1, 0, 0, none, ['X']⟩), (8, .thread 1 1 .calm),
    (1, .thread 0 2 (.answer true 1)), (2, .thread 0 2 .calm), (1, .wake 0 1),
    (4, .thread 0 3 .calm), (1, .recvReplicate 1 ⟨0, 1, 0, 1, 2, 1, 1, 1, none, ['Y']⟩),
    (8, .thread 1 2 .calm), (1, .thread 0 3 (.answer true 1)), (2, .thread 0 3 .calm)]

/-- Without the condition, a leader can set its commit index back. -/
theorem commit_set_back :
    ¬ ∀ σ σ' e, Reach Cluster.step (fun _ e => e.inZone [0, 1, 2] = true)
        (Cluster.init [0, 1, 2] (fun _ => ['0'])) σ → e.inZone [0, 1, 2] = true →
      σ.step e = some σ' → ∀ s T i record, (σ.node s).server.raft.state = .leader →
        σ'.obs = .commit s T i record :: σ.obs → (σ.node s).server.raft.commit ≤ i := by
  intro h
  have hrun : ((runEvents Cluster.step (Cluster.init [0, 1, 2] (fun _ => ['0']))
      (repeated lateWriterRun)).map (fun σ => (σ.obs,
        (σ.step (.thread 0 0 .calm)).map Cluster.obs, (σ.node 0).server.raft.commit,
        (σ.node 0).server.raft.state))) =
      some ([.commit 0 1 2 (some (1, ['Y']))],
        some [.commit 0 1 1 (some (1, ['X'])), .commit 0 1 2 (some (1, ['Y']))], 2, .leader) := by
    decide
  obtain ⟨σ, hσ, heq⟩ := Option.map_eq_some_iff.mp hrun
  simp only [Prod.mk.injEq] at heq
  obtain ⟨hobs, hstep, hcommit, hl⟩ := heq
  obtain ⟨σ', hσ', hobs'⟩ := Option.map_eq_some_iff.mp hstep
  have hzone : ∀ e ∈ repeated lateWriterRun, e.inZone [0, 1, 2] = true := by decide
  have hle := h σ σ' _ (reach_of_runEvents _ hzone hσ) rfl hσ' 0 1 1 _ hl
    (hobs'.trans (by rw [hobs]))
  rw [hcommit] at hle
  exact absurd hle (by decide)
