/-
# Commit quorums and leader completeness

When a leader sets its commit index, a majority has the record in its log, and every leader of
a later term has it too, in every run in which the code stays clear of the places where it can
go wrong (`CommitOk`, on top of `LogOk`):

* `ZoneAPI::vote` compares the logs before it casts the vote.  The log must not have changed
  when a vote is granted.
* `ZoneAPI::replicate_log` checks the term at the beginning.  The server must still be in the
  term of the leader when it deletes, inserts or acknowledges a record, and a record that is
  deleted must still be in conflict with the request.  A record that is acknowledged because it
  is known must be there: the database must report that a query has found no row.
* `RaftReplicaThread` reads the record to send and later the term to send it with.  The server
  must be leader when the request is sent, and its log must still have the record.
* `replicate_log`, `replicate_success`, `replicate_failure`, `reset_index` and `add_server`
  keep the count of replicas in `next`, `match` and the registered requests; see
  `ReplicaCount.lean` for the conditions under which the count stays right.
* A leader commits by counting replicas only a record of its own term.

The invariant `commits` says that the ledger of the world is sound, that acknowledgements and
votes are as the ledger remembers them, and that the leader's count is right.
-/
import OpenNebula.LogMatching
import OpenNebula.ReplicaCount

open ReplicatedLog Transition

/-! ## The condition on the steps -/

/-- The log a vote was granted for is still the log of the server. -/
def VoteForLog (v : Server) : Thread → Prop
  | .voteCast p _ li lt =>
    ¬ (p.logTerm < lt ∨ (lt = p.logTerm ∧ p.logIndex < li)) →
      v.raft.votedfor = none ∨ v.raft.votedfor = some p.candidateId →
      li = v.logdb.lastIndex ∧ lt = v.logdb.lastTerm
  | _ => True

/-- A handler changes the log or acknowledges a record in the term of the leader. -/
def HandlerInTerm (v : Server) : Thread → Prop
  | .replRecord p _ => (v.logdb.lookup p.index).map LogRow.term = some p.term → 0 < p.index →
      v.raft.term = p.leaderTerm
  | .replDelete p _ => v.raft.term = p.leaderTerm ∧
      (v.logdb.lookup p.index).map LogRow.term ≠ some p.term
  | .replInsert p _ => v.raft.term = p.leaderTerm
  | _ => True

/-- The query for a record that may be known finds it, or reports that it is not there. -/
def KnownFinds (v : Server) (env : Env) : Thread → Prop
  | .replRecord p _ => v.logdb.Finds env.backend p.index
  | _ => True

/-- A leader sends a record that it has. -/
def LeaderSends (v : Server) : Thread → Prop
  | .replicaRpc f _ _ lr => f ∈ v.raft.servers → v.raft.state = .leader ∧
      (v.logdb.lookup lr.index).map LogRow.term = some lr.term
  | _ => True

/-- The record at `i` is of the current term. -/
def OwnRecord (v : Server) (i : ℕ) : Prop :=
  (v.logdb.lookup i).map LogRow.term = some v.raft.term

/-- `replicate_success` is for the record that was sent, in the term it was sent in, and the
last replica that a request waits for is of a record of the current term. -/
def SuccessCounts (v : Server) (f : ServerId) (p : ReplicateParams) : Prop :=
  match v.raft.next.lookup f with
  | none => True
  | some n => n = p.index ∧ v.raft.term = p.leaderTerm ∧
    match v.raft.requests.requests.lookup n with
    | some (some rr) => rr.toCommit = 1 → OwnRecord v n
    | _ => True

/-- The operations on the count of replicas meet the conditions of `ReplicaCount.lean`, and a
record that is committed is of the current term. -/
def CountsRight (Configs : List ServerId → Prop) (v : Server) : Thread → Prop
  | .register i _ => v.raft.state = .leader →
      (∀ f ∈ v.raft.servers, i < v.raft.nextOf f → i ≤ v.raft.matchOf f) ∧
      (v.raft.numServers / 2 ≤ v.raft.replicas i → OwnRecord v i)
  | .replicaSuccessLock f _ _ p => SuccessCounts v f p
  | .replicaFailure f _ _ => v.raft.MayMove f (v.raft.nextOf f - 1)
  | .resetIndexLock f i => v.raft.MayMove f (i + 1)
  | .addServerLock f _ => v.raft.state = .leader → f ∉ v.raft.servers ∧
      (v.raft.numServers % 2 = 0 ∨ ∀ e ∈ v.raft.requests.requests.entries, ¬ e.2.isSome) ∧
      Configs (v.raft.servers ++ [f])
  | _ => True

instance (v : Server) (t : Thread) : Decidable (VoteForLog v t) := by
  apply Thread.casesOn (motive := fun t => Decidable (VoteForLog v t)) t <;> intros <;>
    dsimp only [VoteForLog] <;> infer_instance

instance (v : Server) (t : Thread) : Decidable (HandlerInTerm v t) := by
  apply Thread.casesOn (motive := fun t => Decidable (HandlerInTerm v t)) t <;> intros <;>
    dsimp only [HandlerInTerm] <;> infer_instance

instance (v : Server) (env : Env) (t : Thread) : Decidable (KnownFinds v env t) := by
  unfold KnownFinds
  split <;> infer_instance

instance (v : Server) (t : Thread) : Decidable (LeaderSends v t) := by
  unfold LeaderSends
  split <;> infer_instance

instance (v : Server) (i : ℕ) : Decidable (OwnRecord v i) :=
  inferInstanceAs (Decidable (_ = _))

instance (v : Server) (f : ServerId) (p : ReplicateParams) : Decidable (SuccessCounts v f p) := by
  unfold SuccessCounts
  split
  · infer_instance
  · split <;> infer_instance

instance (Configs : List ServerId → Prop) [DecidablePred Configs] (v : Server) (t : Thread) :
    Decidable (CountsRight Configs v t) := by
  unfold CountsRight
  split <;> infer_instance

/-- The steps that commit quorums and leader completeness need. -/
structure CommitOk (Configs : List ServerId → Prop) (σ : Cluster) (e : Event) : Prop
    extends LogOk Configs σ e where
  voteLog : σ.Running e (fun s t _ => VoteForLog (σ.node s).server t)
  handler : σ.Running e (fun s t _ => HandlerInTerm (σ.node s).server t)
  known : σ.Running e (fun s t env => KnownFinds (σ.node s).server env t)
  sends : σ.Running e (fun s t _ => LeaderSends (σ.node s).server t)
  counts : σ.Running e (fun s t _ => CountsRight Configs (σ.node s).server t)

instance (Configs : List ServerId → Prop) [DecidablePred Configs] (σ : Cluster) (e : Event) :
    Decidable (CommitOk Configs σ e) :=
  decidable_of_iff
    (LogOk Configs σ e ∧ σ.Running e (fun s t _ => VoteForLog (σ.node s).server t) ∧
      σ.Running e (fun s t _ => HandlerInTerm (σ.node s).server t) ∧
      σ.Running e (fun s t env => KnownFinds (σ.node s).server env t) ∧
      σ.Running e (fun s t _ => LeaderSends (σ.node s).server t) ∧
      σ.Running e (fun s t _ => CountsRight Configs (σ.node s).server t))
    ⟨fun h => ⟨h.1, h.2.1, h.2.2.1, h.2.2.2.1, h.2.2.2.2.1, h.2.2.2.2.2⟩,
      fun h => ⟨h.toLogOk, h.voteLog, h.handler, h.known, h.sends, h.counts⟩⟩

/-! ## The invariant -/

/-- A log that is not more up to date than the last term `lt` and the last index `li`. -/
def AtMost (l : List (Entry Sql)) (lt li : ℕ) : Prop :=
  lastTerm l < lt ∨ (lastTerm l = lt ∧ l.length ≤ li)

/-- A vote in term `t` that was cast for a log with the last term `lt` and the last index
`li`. -/
def SafeVote (w : World) (f : ServerId) (t lt li : ℕ) : Prop :=
  ∃ l, VoteSafe w.ledger f t t l ∧ AtMost l lt li

/-- A request with a record comes from the log of the leader of its term. -/
def LeaderRecord (w : World) (p : ReplicateParams) : Prop :=
  0 < p.index → w.ledger.won p.leaderTerm ≠ none ∧
    IsRecord (w.ledger.llog p.leaderTerm) p.index p.term p.prevIndex p.prevTerm p.sql

/-- The receiver has accepted the record of a request. -/
def Acked (w : World) (p : ReplicateParams) : Prop :=
  0 < p.index → w.ledger.acc p.dst p.leaderTerm p.index

def commitMsg (w : World) : Msg → Prop
  | .voteReply p true _ => SafeVote w p.dst p.candidateTerm p.logTerm p.logIndex
  | .replicate p => LeaderRecord w p
  | .replicateReply p true _ => Acked w p
  | _ => True

def commitThread (w : World) (s : ServerId) : Thread → Prop
  | .updateRaftState _ k => commitThread w s k
  | .followerSetup _ k => commitThread w s k
  | .followerLock _ _ k => commitThread w s k
  | .reply m => commitMsg w m
  | .replTerm p | .replCandidate p _ | .replPrev p _ | .replRecord p _ | .replDelete p _
  | .replInsert p _ => p.dst = s ∧ LeaderRecord w p
  | .replHeartbeat p _ | .replHeartbeatCommit p _ _ => p.dst = s ∧ p.index = 0
  | .replCommit p _ | .replApply p _ _ => p.dst = s ∧ Acked w p
  | .replicaWait f _ _ p => p.dst = f
  | .replicaSuccess f _ p | .replicaSuccessLock f _ _ p => p.dst = f ∧ Acked w p
  | .register i _ => 0 < i
  | _ => True

/-- What holds of a campaign as long as its term has no winner: the log of the candidate is
the one it asked for votes with, and the votes were cast for it. -/
structure Contest (w : World) (s : ServerId) (t lt li : ℕ) (granted : List ServerId) : Prop where
  old : ∀ e ∈ w.ledger.log s, e.1 < t
  lastTerm : lt = lastTerm (w.ledger.log s)
  lastIndex : li = (w.ledger.log s).length
  votes : ∀ f ∈ granted, SafeVote w f t lt li

/-- The server is still a candidate in the term `t`, and the term has no winner. -/
def Undecided (w : World) (v : Server) (t : ℕ) : Prop :=
  v.raft.state = .candidate ∧ v.raft.term = t ∧ w.ledger.won t = none

def commitTimer (w : World) (s : ServerId) (v : Server) : Thread → Prop
  | .updateRaftState _ k => commitTimer w s v k
  | .voteIndex _ t _ => Undecided w v t → ∀ e ∈ w.ledger.log s, e.1 < t
  | .voteRpc _ t _ li lt _ granted => Undecided w v t → Contest w s t lt li granted
  | .voteWait _ t _ li lt _ granted p => p.logTerm = lt ∧ p.logIndex ≤ li ∧
      (Undecided w v t → Contest w s t lt li granted)
  | .leaderSetup t granted => Undecided w v t → ∃ lt li, Contest w s t lt li granted
  | .leaderLock t granted _ _ => Undecided w v t → ∃ lt li, Contest w s t lt li granted
  | _ => True

/-- The state of a leader: a configuration, a right count, and followers that have accepted
what `match` says. -/
structure LeaderState (Configs : List ServerId → Prop) (w : World) (s : ServerId)
    (r : RaftManager) : Prop where
  config : Configs r.servers
  book : r.Bookkeeping s
  acked : ∀ f, r.matchOf f = 0 ∨ w.ledger.acc f r.term (r.matchOf f)

/-- Only a leader has followers to count. -/
structure RaftCounts (Configs : List ServerId → Prop) (w : World) (s : ServerId)
    (r : RaftManager) : Prop where
  idle : r.state ≠ .leader → r.next = ∅
  leader : r.state = .leader → LeaderState Configs w s r

structure CommitServer (Configs : List ServerId → Prop) (w : World) (s : ServerId) (v : Server) :
    Prop extends RaftCounts Configs w s v.raft where
  own : v.raft.state = .leader → w.ledger.acc s v.raft.term (w.ledger.log s).length

/-- A commit index was set for a record that is chosen. -/
def commitObs (Configs : List ServerId → Prop) (w : World) : Obs → Prop
  | .commit _ T i record => 0 < i ∧ ChosenIn (Majority Configs) w.ledger T (i - 1) ∧
      (w.ledger.llog T)[i - 1]? = record
  | _ => True

/-- The invariant of commit quorums. -/
def commits (Configs : List ServerId → Prop) : Assertions where
  world := fun w => Sound (Majority Configs) w.ledger
  server := CommitServer Configs
  timer := commitTimer
  thread := fun w s _ t => commitThread w s t
  msg := commitMsg
  obs := commitObs Configs

/-! ## Stability -/

section Stability

variable {Configs : List ServerId → Prop} {w w' : World} {s : ServerId}

theorem termAt_of_take_eq {l l' : List (Entry Sql)} {i j : ℕ} (h : l.take i = l'.take i)
    (hj : j ≤ i) : termAt l j = termAt l' j := by
  cases j with
  | zero => rfl
  | succ j =>
    have hget := congrArg (fun l => l[j]?) h
    simp only [List.getElem?_take, if_pos (show j < i by omega)] at hget
    rw [termAt, termAt, hget]

/-- Whether a log has a record is decided by the part of the log up to its index. -/
theorem IsRecord.of_take_eq {l l' : List (Entry Sql)} {i term prevIndex prevTerm : ℕ} {sql : Sql}
    (h : IsRecord l i term prevIndex prevTerm sql) (htake : l.take i = l'.take i)
    (hle : i ≤ l'.length) : IsRecord l' i term prevIndex prevTerm sql where
  index_le := hle
  term_eq := h.term_eq.trans (termAt_of_take_eq htake le_rfl)
  prevIndex_eq := h.prevIndex_eq
  prevTerm_eq := h.prevTerm_eq.trans (termAt_of_take_eq htake (Nat.sub_le i 1))
  entry := by
    intro hpos
    have hget := congrArg (fun l => l[i - 1]?) htake
    simp only [List.getElem?_take, if_pos (show i - 1 < i by omega)] at hget
    rw [← hget]
    exact h.entry hpos

theorem SafeVote.mono (hs : Sound (Majority Configs) w.ledger)
    (hext : Extends w.ledger w'.ledger) {f : ServerId} {t lt li : ℕ}
    (h : SafeVote w f t lt li) : SafeVote w' f t lt li := by
  obtain ⟨l, hsafe, hle⟩ := h
  exact ⟨l, hsafe.mono hs hext, hle⟩

theorem LeaderRecord.mono (hext : Extends w.ledger w'.ledger) {p : ReplicateParams}
    (h : LeaderRecord w p) : LeaderRecord w' p := by
  intro hpos
  obtain ⟨hwon, hrec⟩ := h hpos
  refine ⟨?_, ?_⟩
  · rw [hext.won_le _ hwon]
    exact hwon
  · exact hrec.of_take_eq (hext.take_llog hrec.index_le).symm
      (hrec.index_le.trans (hext.llog_le _).length_le)

theorem Acked.mono (hext : Extends w.ledger w'.ledger) {p : ReplicateParams} (h : Acked w p) :
    Acked w' p :=
  fun hpos => hext.acc_le _ _ _ (h hpos)

theorem commitMsg_mono (hs : Sound (Majority Configs) w.ledger)
    (hext : Extends w.ledger w'.ledger) {m : Msg} (hm : commitMsg w m) : commitMsg w' m := by
  cases m with
  | vote p => trivial
  | voteReply p success fterm =>
    cases success with
    | true => exact SafeVote.mono hs hext hm
    | false => trivial
  | replicate p => exact LeaderRecord.mono hext hm
  | replicateReply p success fterm =>
    cases success with
    | true => exact Acked.mono hext hm
    | false => trivial

theorem commitThread_mono (hs : Sound (Majority Configs) w.ledger)
    (hext : Extends w.ledger w'.ledger) {f : ServerId} (t : Thread) (ht : commitThread w f t) :
    commitThread w' f t := by
  induction t with
  | updateRaftState x k ih => exact ih ht
  | followerSetup t k ih => exact ih ht
  | followerLock t a k ih => exact ih ht
  | reply m => exact commitMsg_mono hs hext ht
  | replTerm p => exact ⟨ht.1, ht.2.mono hext⟩
  | replCandidate p c => exact ⟨ht.1, ht.2.mono hext⟩
  | replPrev p c => exact ⟨ht.1, ht.2.mono hext⟩
  | replRecord p c => exact ⟨ht.1, ht.2.mono hext⟩
  | replDelete p c => exact ⟨ht.1, ht.2.mono hext⟩
  | replInsert p c => exact ⟨ht.1, ht.2.mono hext⟩
  | replCommit p c => exact ⟨ht.1, ht.2.mono hext⟩
  | replApply p c i => exact ⟨ht.1, ht.2.mono hext⟩
  | replicaSuccess f e p => exact ⟨ht.1, ht.2.mono hext⟩
  | replicaSuccessLock f e i p => exact ⟨ht.1, ht.2.mono hext⟩
  | _ => exact ht

theorem Contest.mono (hs : Sound (Majority Configs) w.ledger)
    (hext : Extends w.ledger w'.ledger) (hlog : w'.ledger.log s = w.ledger.log s)
    {t lt li : ℕ} {granted : List ServerId} (h : Contest w s t lt li granted) :
    Contest w' s t lt li granted where
  old := hlog ▸ h.old
  lastTerm := hlog ▸ h.lastTerm
  lastIndex := hlog ▸ h.lastIndex
  votes := fun f hf => (h.votes f hf).mono hs hext

/-- The campaigns that are not decided after a step are those that were not before. -/
theorem Undecided.back (hext : Extends w.ledger w'.ledger) {v v' : Server} {t : ℕ}
    (hstate : v'.raft.state = .candidate →
      v.raft.state = .candidate ∧ v'.raft.term = v.raft.term)
    (h : Undecided w' v' t) : Undecided w v t := by
  obtain ⟨hc, hterm, hwon⟩ := h
  obtain ⟨hc', hterm'⟩ := hstate hc
  refine ⟨hc', hterm'.symm.trans hterm, ?_⟩
  by_contra hne
  exact hne (hext.won_le t hne ▸ hwon)

/-- A campaign is not disturbed as long as the candidate keeps its log while its term has no
winner. -/
theorem commitTimer_mono (hs : Sound (Majority Configs) w.ledger)
    (hext : Extends w.ledger w'.ledger) {v v' : Server}
    (hstate : v'.raft.state = .candidate →
      v.raft.state = .candidate ∧ v'.raft.term = v.raft.term)
    (hlog : Undecided w v v.raft.term → w'.ledger.log s = w.ledger.log s) (t : Thread)
    (ht : commitTimer w s v t) : commitTimer w' s v' t := by
  have hkeep : ∀ {T}, Undecided w' v' T →
      Undecided w v T ∧ w'.ledger.log s = w.ledger.log s := by
    intro T hund
    have hund' := hund.back hext hstate
    have hterm := hund'.2.1
    subst hterm
    exact ⟨hund', hlog hund'⟩
  induction t with
  | updateRaftState x k ih => exact ih ht
  | voteIndex servers T n =>
    intro hund
    obtain ⟨hund', heq⟩ := hkeep hund
    rw [heq]
    exact ht hund'
  | voteRpc servers T n li lt todo granted =>
    intro hund
    obtain ⟨hund', heq⟩ := hkeep hund
    exact (ht hund').mono hs hext heq
  | voteWait servers T n li lt todo granted p =>
    refine ⟨ht.1, ht.2.1, ?_⟩
    intro hund
    obtain ⟨hund', heq⟩ := hkeep hund
    exact (ht.2.2 hund').mono hs hext heq
  | leaderSetup T granted =>
    intro hund
    obtain ⟨hund', heq⟩ := hkeep hund
    obtain ⟨lt, li, hc⟩ := ht hund'
    exact ⟨lt, li, hc.mono hs hext heq⟩
  | leaderLock T granted applied index =>
    intro hund
    obtain ⟨hund', heq⟩ := hkeep hund
    obtain ⟨lt, li, hc⟩ := ht hund'
    exact ⟨lt, li, hc.mono hs hext heq⟩
  | _ => exact trivial

theorem LeaderState.mono (hext : Extends w.ledger w'.ledger) {r : RaftManager}
    (h : LeaderState Configs w s r) : LeaderState Configs w' s r where
  config := h.config
  book := h.book
  acked := fun f => (h.acked f).imp_right (hext.acc_le _ _ _)

theorem commitObs_mono (hext : Extends w.ledger w'.ledger) {ob : Obs}
    (h : commitObs Configs w ob) : commitObs Configs w' ob := by
  cases ob with
  | applied f i t x => trivial
  | commit f T i record =>
    obtain ⟨hpos, hc, hrec⟩ := h
    obtain ⟨x, hx⟩ := hc.1
    refine ⟨hpos, hc.mono hext, ?_⟩
    rw [← hrec, hx]
    exact getElem?_of_isPrefix (hext.llog_le T) hx

theorem commits_frame (hs : Sound (Majority Configs) w.ledger)
    (h : LedgerStep w.ledger w'.ledger s) (v v' : Server) :
    (commits Configs).Frame w w' s v v' where
  server := by
    intro s' u hne hu
    refine ⟨⟨hu.idle, fun hl => (hu.leader hl).mono h.ext⟩, ?_⟩
    intro hl
    rw [h.log_ne s' hne]
    exact h.ext.acc_le _ _ _ (hu.own hl)
  timer := fun s' u t hne ht =>
    commitTimer_mono hs h.ext (fun hc => ⟨hc, rfl⟩) (fun _ => h.log_ne s' hne) t ht
  thread := fun _ _ t _ ht => commitThread_mono hs h.ext t ht
  same := fun t ht => commitThread_mono hs h.ext t ht
  msg := fun _ hm => commitMsg_mono hs h.ext hm
  obs := fun _ hob => commitObs_mono h.ext hob

end Stability

/-! ## The ledger stays sound -/

section SoundStep

variable {Configs : List ServerId → Prop} {text : ServerId → Sql} {w : World} {s : ServerId}
  {v : Server} {net : List Msg} {env : Env} {t : Thread} {o : Outcome} {l' : List (Entry Sql)}

theorem World.acknowledged_some {t t' : Thread} {i : ℕ} (h : World.acknowledged t t' = some i) :
    (∃ p c q f, t = .replRecord p c ∧ t' = .reply (.replicateReply q true f) ∧ 0 < p.index ∧
        i = p.index) ∨
      ∃ p c q d, t = .replInsert p c ∧ t' = .replCommit q d ∧ i = p.index := by
  unfold World.acknowledged at h
  split at h
  · split at h
    · exact absurd h (by simp)
    · rename_i hne
      exact Or.inl ⟨_, _, _, _, rfl, rfl, Nat.pos_of_ne_zero hne, (Option.some.inj h).symm⟩
  · exact Or.inr ⟨_, _, _, _, rfl, rfl, (Option.some.inj h).symm⟩
  · exact absurd h (by simp)

/-- A handler that acknowledges a record has it in the log that it leaves, on top of the log
that it found. -/
theorem acknowledged_spec {i : ℕ} (hm : Matching w.ledger)
    (hl : v.logdb.Holds (text s) (w.ledger.log s)) (hok : LogInPlace v t)
    (hf : InsertFinds v env t) (hin : HandlerInTerm v t) (hknown : KnownFinds v env t)
    (ht : logThread w v.raft.term t) (hc : commitThread w s t)
    (hl' : o.server.logdb.Holds (text s) l') (hchange : LogChange v (w.ledger.log s) t o l')
    (hack : World.acknowledged t o.thread = some i) (h : ThreadStep s v net env t o) :
    ∃ p c, (t = .replRecord p c ∨ t = .replInsert p c) ∧ i = p.index ∧ 0 < p.index ∧
      LeaderRecord w p ∧ v.raft.term = p.leaderTerm ∧ o.server.raft = v.raft ∧
      w.ledger.log s <+: l' ∧ p.index ≤ l'.length ∧ termAt l' p.index = p.term := by
  rcases World.acknowledged_some hack with ⟨p, c, q, f, rfl, hthread, hpos, rfl⟩ |
    ⟨p, c, q, d, rfl, hthread, rfl⟩
  · -- the record was there
    have hkeep : l' = w.ledger.log s := by
      cases hchange with
      | keep _ => rfl
    subst hkeep
    cases h with
    | finish pending reconciling _ => exact absurd hthread (by simp [Outcome.mk'])
    | goto hg =>
      cases hg with
      | replMissing _ => exact absurd hthread (by simp [Outcome.mk'])
      | replConflict _ _ => exact absurd hthread (by simp [Outcome.mk'])
      | @replKnown _ _ lr hlr hterm =>
        obtain ⟨-, hle, -, hlrt, -⟩ := hl.getLogRecord_some hknown hlr
        obtain ⟨r, hr, -, hrt, -⟩ := hl.lookup_of_le hle
        refine ⟨p, c, Or.inl rfl, rfl, hpos, hc.2, hin ?_ hpos, rfl, List.prefix_rfl, hle,
          hlrt.symm.trans hterm⟩
        rw [hr, Option.map_some, hrt, ← hlrt, hterm]
  · -- the record was inserted
    cases h with
    | finish pending reconciling _ => exact absurd hthread (by simp [Outcome.mk'])
    | goto hg =>
      cases hg with
      | replInsertFailed => exact absurd hthread (by simp [Outcome.mk', Thread.replReply])
    | replInsert _ _ db hdb =>
      obtain ⟨l'', hl'', -, hent, -⟩ := logChange_replInsert hl (hm.log_chained s) hok hf ht hdb
      have heq : l'' = l' := hl''.log_eq.symm.trans hl'.log_eq
      subst heq
      have hpos : 0 < p.index := ht.2.2
      have hlt := (List.getElem?_eq_some_iff.mp hent).1
      have hsub : w.ledger.log s <+: l'' := by
        cases hchange with
        | keep _ => exact List.prefix_rfl
        | insert _ _ _ _ _ => exact List.prefix_append _ _
      refine ⟨p, c, Or.inr rfl, rfl, hpos, hc.2, hin, rfl, hsub, by omega, ?_⟩
      have := termAt_succ hent
      rwa [Nat.sub_add_cancel hpos] at this

/-- Deleting the records from a conflict on: what is lost was overruled by the leader of the
term. -/
theorem overruled_of_conflict {p : ReplicateParams}
    (hrec : LeaderRecord w p) (hpos : 0 < p.index) {T m U : ℕ} (hTU : T ≤ p.leaderTerm)
    (hU : p.leaderTerm ≤ U) (hm' : p.index ≤ m) (hlen : m ≤ (w.ledger.llog T).length)
    (hheld : (w.ledger.llog T).take m <+: w.ledger.log s)
    (hne : termAt (w.ledger.log s) p.index ≠ p.term) : Overruled w.ledger T m U := by
  obtain ⟨hwon, hrecord⟩ := hrec hpos
  -- the leader has another record at the index
  have hnot : ¬ (w.ledger.llog T).take m <+: w.ledger.llog p.leaderTerm := by
    intro hpre
    have h1 := List.prefix_iff_eq_take.mp hheld
    have h2 := List.prefix_iff_eq_take.mp hpre
    rw [List.length_take, Nat.min_eq_left hlen] at h1 h2
    apply hne
    rw [hrecord.term_eq]
    exact termAt_of_take_eq (h1.symm.trans h2) hm'
  refine ⟨p.leaderTerm, ?_, hU, hwon, hnot⟩
  refine lt_of_le_of_ne hTU ?_
  rintro rfl
  exact hnot (List.take_prefix _ _)

/-- A leader is elected by a majority of votes for its log. -/
def ElectedBy (Configs : List ServerId → Prop) (w : World) (s : ServerId) (v : Server) (t : Thread)
    (o : Outcome) : Prop :=
  World.Elected v o → (∃ T g a i, t = .leaderLock T g a i) →
    w.ledger.won v.raft.term = none ∧ (∀ e ∈ w.ledger.log s, e.1 < v.raft.term) ∧
    ∃ Q, Majority Configs Q ∧ ∀ f ∈ Q, ∃ l, VoteSafe w.ledger f v.raft.term v.raft.term l ∧
      UpToDate (w.ledger.log s) l

/-- **The ledger stays sound.** -/
theorem LedgerChange.sound {L' : Ledger ServerId Sql} (hs : Sound (Majority Configs) w.ledger)
    (hterm : w.ledger.term s = v.raft.term) (hserver : LogServer text w s v)
    (hok : LogInPlace v t) (hf : InsertFinds v env t) (hin : HandlerInTerm v t)
    (hknown : KnownFinds v env t) (ht : logThread w v.raft.term t)
    (hc : commitThread w s t) (hl' : o.server.logdb.Holds (text s) l')
    (hchange : LogChange v (w.ledger.log s) t o l') (h : ThreadStep s v net env t o)
    (helect : ElectedBy Configs w s v t o)
    (hledger : LedgerChange w.ledger s v t o l' L') : Sound (Majority Configs) L' := by
  cases hledger with
  | elect helected hlock _ =>
    obtain ⟨hnone, hold, Q, hQ, hvotes⟩ := helect helected hlock
    rw [← hterm] at hnone hold hvotes
    have hsound := hs.elect hnone hold hQ hvotes
    refine hsound.accept ?_ ?_ ?_
    · simp [Ledger.elect]
    · simp [Ledger.elect]
    · simp [Ledger.elect]
  | append sql hlead _ _ =>
    have hwon : w.ledger.won (w.ledger.term s) ≠ none := by
      rw [hterm, hserver.won hlead]
      simp
    have hsound := hs.append sql hwon (hterm ▸ hserver.llog hlead)
    refine hsound.accept hwon ?_ ?_
    · simp [Ledger.append]
    · simp only [Ledger.append, Function.update_self]
      exact List.take_prefix _ _
  | move _ _ _ hch hbound =>
    refine hs.move (hterm ▸ h.term_le) hch hbound ?_
    intro T n m hacc hmn hheld
    cases hchange with
    | keep _ => exact Or.inl hheld
    | append _ _ _ _ => exact Or.inl (hheld.trans (List.prefix_append _ _))
    | insert _ _ _ _ _ => exact Or.inl (hheld.trans (List.prefix_append _ _))
    | @truncate p c _ _ hle _ hraft =>
      obtain ⟨hwonT, hT, hlen, -⟩ := hs.acc_spec s T n hacc
      have hmlen := hmn.trans hlen
      rcases Nat.lt_or_ge m p.index with hlt | hge
      · refine Or.inl (List.prefix_take_iff.mpr ⟨hheld, ?_⟩)
        rw [List.length_take]
        omega
      · refine Or.inr (overruled_of_conflict hc.2 ht.2.2 ?_ ?_ hge hmlen hheld ?_)
        · rw [← hin.1, ← hterm]
          exact hT
        · rw [← hin.1]
          exact h.term_le
        · intro heq
          have hlong : p.index ≤ (w.ledger.log s).length := by
            have := hheld.length_le
            rw [List.length_take, Nat.min_eq_left hmlen] at this
            omega
          obtain ⟨r, hr, -, hrt, -⟩ := hserver.log.lookup_of_le hlong
          apply hin.2
          rw [hr, Option.map_some, hrt, heq]
  | acknowledge i _ hack _ hch hbound =>
    obtain ⟨p, c, -, rfl, hpos, hrec, hpt, hraft, hpre, hle, hat⟩ :=
      acknowledged_spec hs.toMatching hserver.log hok hf hin hknown ht hc hl' hchange hack h
    obtain ⟨hwon, hrecord⟩ := hrec hpos
    have hsound := hs.move (hterm ▸ h.term_le) hch hbound
      (fun T n m _ _ hheld => Or.inl (hheld.trans hpre))
    have hterm' : (w.ledger.move s o.server.raft.term l').term s = p.leaderTerm := by
      simp [Ledger.move, hraft, hpt]
    refine hsound.accept ?_ ?_ ?_
    · rw [hterm']
      exact hwon
    · rw [hterm']
      exact hrecord.index_le
    · rw [hterm']
      have htake := (hs.llog_chained p.leaderTerm).take_eq_of_termAt hch hrecord.index_le hle
        (hrecord.term_eq.symm.trans hat.symm)
      have hlog : (w.ledger.move s o.server.raft.term l').log s = l' := by simp [Ledger.move]
      rw [hlog]
      show (w.ledger.llog p.leaderTerm).take p.index <+: l'
      rw [htake]
      exact List.take_prefix _ _

end SoundStep

/-! ## Steps of the timer thread -/

section Timer

variable {Configs : List ServerId → Prop} {text : ServerId → Sql} {w w' : World} {s : ServerId}
  {v : Server} {net : List Msg} {env : Env} {t t' : Thread} {o : Outcome}

/-- A leader is elected by a majority of votes that were cast for its log. -/
theorem elected_votes (hconf : ZoneConfigs Configs) (hw : ElectionWorld Configs w)
    (hes : ElectionServer w s v) (hs : Sound (Majority Configs) w.ledger)
    {T : ℕ} {granted : List ServerId} (applied index : ℕ)
    (he : electionTimer Configs w s v (.leaderLock T granted applied index))
    (ht : commitTimer w s v (.leaderLock T granted applied index))
    (hc : v.raft.state = .candidate) :
    w.ledger.won v.raft.term = none ∧ (∀ e ∈ w.ledger.log s, e.1 < v.raft.term) ∧
      ∃ Q, Majority Configs Q ∧ ∀ f ∈ Q, ∃ l, VoteSafe w.ledger f v.raft.term v.raft.term l ∧
        UpToDate (w.ledger.log s) l := by
  have hnone := electionTimer.won_none hconf hw hes he hc
  obtain ⟨servers, hsize, hcamp⟩ := he
  have hT : v.raft.term = T := (hcamp.candidacy hc).term
  obtain ⟨lt, li, hcontest⟩ := ht ⟨hc, hT, hT ▸ hnone⟩
  refine ⟨hnone, hT ▸ hcontest.old, _, (hcamp.majority hes hsize hc).1, ?_⟩
  intro f hf
  rw [Finset.mem_insert, List.mem_toFinset] at hf
  rcases hf with rfl | hf
  · refine ⟨w.ledger.log f, ?_, Or.inr ⟨rfl, le_rfl⟩⟩
    have := hs.voteSafe f
    rwa [hes.term] at this
  · obtain ⟨l, hsafe, hle⟩ := hcontest.votes f hf
    rw [hT]
    refine ⟨l, hsafe, ?_⟩
    rw [AtMost, hcontest.lastTerm, hcontest.lastIndex] at hle
    exact hle

theorem commitTimer_voteNext {servers todo granted : List ServerId} {T n li lt : ℕ}
    (h : Undecided w v T → Contest w s T lt li granted) :
    commitTimer w s v (Thread.voteNext servers T n li lt todo granted) := by
  unfold Thread.voteNext
  split
  · exact fun hund => ⟨lt, li, h hund⟩
  · split
    · trivial
    · exact h

/-- A further vote for a candidate. -/
theorem Contest.grant {T lt li : ℕ} {granted : List ServerId} {f : ServerId}
    (h : Contest w s T lt li granted) (hf : SafeVote w f T lt li) :
    Contest w s T lt li (f :: granted) := by
  refine { h with votes := ?_ }
  intro g hg
  rcases List.mem_cons.mp hg with rfl | hg
  · exact hf
  · exact h.votes g hg

/-- A vote for a part of a log is a vote for the log. -/
theorem SafeVote.le {f : ServerId} {T lt li li' : ℕ} (h : SafeVote w f T lt li) (hle : li ≤ li') :
    SafeVote w f T lt li' := by
  obtain ⟨l, hsafe, hl⟩ := h
  refine ⟨l, hsafe, hl.imp_right ?_⟩
  exact fun hl => ⟨hl.1, hl.2.trans hle⟩

theorem commitTimer_goto (hl : v.logdb.Holds (text s) (w.ledger.log s))
    (hnet : ∀ m ∈ net, commitMsg w m) (he : electionTimer Configs w s v t)
    (ht : commitTimer w s v t) (h : Goto s v net env t t') : commitTimer w s v t' := by
  -- the candidate asks for votes with the log it has now
  have hfirst : ∀ {T}, (Undecided w v T → ∀ e ∈ w.ledger.log s, e.1 < T) → Undecided w v T →
      Contest w s T v.logdb.lastTerm v.logdb.lastIndex [] := by
    intro T hold hund
    exact ⟨hold hund, hl.term, hl.last, by simp⟩
  cases h with
  | voteIndex => exact hfirst ht
  | voteAlone => exact commitTimer_voteNext (hfirst ht)
  | voteSkip => exact commitTimer_voteNext ht
  | voteDenied => exact commitTimer_voteNext ht.2.2
  | voteGranted hmem =>
    obtain ⟨hlt, hli, hcontest⟩ := ht
    obtain ⟨-, -, -, hpt⟩ := he
    have hvote : SafeVote w _ _ _ _ := hnet _ hmem
    refine commitTimer_voteNext ?_
    intro hund
    rw [hpt hund.1, hlt] at hvote
    exact (hcontest hund).grant (hvote.le hli)
  | voteStepDown => trivial
  | _ => exact False.elim he

/-- The place the timer thread goes to keeps its assertion.  No step of it changes the log. -/
theorem commitTimer_step (hs : Sound (Majority Configs) w.ledger)
    (hext : Extends w.ledger w'.ledger) (hterm : w.ledger.term s = v.raft.term)
    (hl : v.logdb.Holds (text s) (w.ledger.log s)) (hlog : w'.ledger.log s = w.ledger.log s)
    (hnet : ∀ m ∈ net, commitMsg w m) (he : electionTimer Configs w s v t)
    (ht : commitTimer w s v t) (h : ThreadStep s v net env t o) :
    commitTimer w' s o.server o.thread := by
  have hmono : ∀ {k : Thread}, RaftManager.SameVote v.raft o.server.raft → commitTimer w s v k →
      commitTimer w' s o.server k := by
    intro k hsame hk
    refine commitTimer_mono hs hext ?_ (fun _ => hlog) k hk
    exact fun hc => ⟨hsame.state ▸ hc, hsame.term⟩
  have hsame : RaftManager.SameVote v.raft v.raft := ⟨rfl, rfl, rfl, rfl, rfl, rfl, rfl⟩
  cases h with
  | goto hg => exact hmono hsame (commitTimer_goto hl hnet he ht hg)
  | finish pending reconciling hx => trivial
  | updateRaftState x k => exact hmono hsame ht
  | followerSetup t k => trivial
  | followerNewTerm t a k hlt =>
    rw [show k = .done from he]
    trivial
  | followerSameTerm t a k hle =>
    rw [show k = .done from he]
    trivial
  | requestVote servers r x hr =>
    obtain ⟨-, -, rfl⟩ := requestVote_some hr
    intro _ e hmem
    rw [hlog] at hmem
    have := hs.log_term s e hmem
    rw [hterm] at this
    exact Nat.lt_succ_of_le this
  | voteSend servers t n li lt f rest granted =>
    have hwait : commitTimer w s v
        (.voteWait servers t n li lt rest granted (v.voteParams s f li lt)) :=
      ⟨rfl, Nat.mod_le _ _, ht⟩
    exact hmono hsame hwait
  | voteLost servers t r x hr => trivial
  | leaderSetup t granted =>
    have hlock : commitTimer w s v
        (.leaderLock t granted (v.logdb.setupIndex env.backend).2.1
          (v.logdb.setupIndex env.backend).2.2) := ht
    exact hmono hsame hlock
  | leaderLock t granted applied index r i hr => trivial
  | _ => exact False.elim he

/-- The timer thread does not change the log. -/
theorem LogChange.timer {l l' : List (Entry Sql)} (he : electionTimer Configs w s v t)
    (h : LogChange v l t o l') : l' = l := by
  cases h with
  | keep _ => rfl
  | append _ _ _ _ => exact False.elim he
  | truncate _ _ _ _ => exact False.elim he
  | insert _ _ _ _ _ => exact False.elim he

/-- Another thread leaves the log of a candidate alone as long as its term has no winner. -/
theorem LogChange.undecided {l l' : List (Entry Sql)} (hin : HandlerInTerm v t)
    (ht : logThread w v.raft.term t) (hc : commitThread w s t) (hund : Undecided w v v.raft.term)
    (h : LogChange v l t o l') : l' = l := by
  cases h with
  | keep _ => rfl
  | append hlead _ _ _ =>
    rw [hund.1] at hlead
    exact absurd hlead (by simp)
  | truncate _ _ _ _ => exact absurd (hin.1 ▸ hund.2.2) (hc.2 ht.2.2).1
  | insert _ _ _ _ _ =>
    have hterm : v.raft.term = _ := hin
    exact absurd (hterm ▸ hund.2.2) (hc.2 ht.2.2).1

end Timer

/-! ## Steps of the other threads -/

section Threads

variable {Configs : List ServerId → Prop} {text : ServerId → Sql} {w w' : World} {s : ServerId}
  {v : Server} {net : List Msg} {env : Env} {t t' : Thread} {o : Outcome}

theorem commitThread_dispatch {p : ReplicateParams} (c : ℕ) (h : p.dst = s ∧ LeaderRecord w p) :
    commitThread w s (Thread.replDispatch p c) := by
  unfold Thread.replDispatch
  split
  · rename_i hbeat
    simp only [ReplicateParams.isHeartbeat, Bool.and_eq_true, beq_iff_eq] at hbeat
    exact ⟨h.1, hbeat.1.1.1.1⟩
  · split
    · trivial
    · split <;> exact h

theorem commitThread_goto (hnet : ∀ m ∈ net, commitMsg w m) (he : electionThread w s t)
    (hext : Extends w.ledger w'.ledger) (hs : Sound (Majority Configs) w.ledger)
    (hack : ∀ p c q f, t = .replRecord p c → t' = .reply (.replicateReply q true f) →
      0 < p.index → w'.ledger.acc s p.leaderTerm p.index)
    (ht : commitThread w s t) (h : Goto s v net env t t') : commitThread w' s t' := by
  cases h with
  | replNewTerm _ => exact ⟨ht.1, ht.2.mono hext⟩
  | replSameTerm _ => exact ⟨ht.1, ht.2.mono hext⟩
  | replCandidate _ => exact commitThread_mono hs hext _ (commitThread_dispatch _ ht)
  | replNotCandidate _ => exact commitThread_mono hs hext _ (commitThread_dispatch _ ht)
  | replHeartbeat => exact ht
  | replPrev _ _ => exact ⟨ht.1, ht.2.mono hext⟩
  | replMissing _ => exact ⟨ht.1, ht.2.mono hext⟩
  | replConflict _ _ => exact ⟨ht.1, ht.2.mono hext⟩
  | @replKnown p c lr _ _ =>
    intro hpos
    rw [ht.1]
    exact hack p c p c rfl rfl hpos
  | @replicaSuccess f e c fterm p hmem =>
    have hacked : Acked w p := hnet _ hmem
    exact ⟨ht, hacked.mono hext⟩
  | replicaSuccessLock => exact ⟨ht.1, ht.2.mono hext⟩
  | _ => first | exact False.elim he | trivial

/-- A leader sends records of its log. -/
theorem leaderRecord_send (hserver : LogServer text w s v)
    (hm : Matching w.ledger) {f : ServerId} {e c : ℕ} {lr : LogDBRecord}
    (ht : logThread w v.raft.term (.replicaRpc f e c lr)) (hl : v.raft.state = .leader)
    (hcur : (v.logdb.lookup lr.index).map LogRow.term = some lr.term) :
    LeaderRecord w (v.recordParams s f lr) := by
  obtain ⟨⟨l, hl₀, hrec⟩, -⟩ := ht
  intro _
  have hle : lr.index ≤ (w.ledger.log s).length := by
    by_contra hlt
    rw [hserver.log.lookup_eq_none.mpr (by omega)] at hcur
    exact absurd hcur (by simp)
  obtain ⟨r, hr, -, hrt, -⟩ := hserver.log.lookup_of_le hle
  rw [hr, Option.map_some, Option.some.injEq, hrt] at hcur
  have htake := hl₀.take_eq_of_termAt (hm.log_chained s) hrec.index_le hle
    (hrec.term_eq.symm.trans hcur.symm)
  refine ⟨?_, ?_⟩
  · show w.ledger.won v.raft.term ≠ none
    rw [hserver.won hl]
    simp
  · show IsRecord (w.ledger.llog v.raft.term) _ _ _ _ _
    rw [← hserver.llog hl]
    exact hrec.of_take_eq htake hle

/-- A vote that is granted is cast for the log that the server has. -/
theorem safeVote_voteCast (hs : Sound (Majority Configs) w.ledger)
    (hterm : w.ledger.term s = v.raft.term) (hl : v.logdb.Holds (text s) (w.ledger.log s))
    {p : VoteParams} {c li lt : ℕ} {r : RaftManager} {x : Snapshot}
    (hin : VoteInTerm v (.voteCast p c li lt)) (hfor : VoteForLog v (.voteCast p c li lt))
    (hlog : ¬ (p.logTerm < lt ∨ (lt = p.logTerm ∧ p.logIndex < li)))
    (hr : v.raft.updateVotedfor p.candidateId = some (r, x)) :
    SafeVote w s p.candidateTerm p.logTerm p.logIndex := by
  obtain ⟨hold, -, -⟩ := updateVotedfor_some hr
  have hpt := hin hlog hold
  obtain ⟨rfl, rfl⟩ := hfor hlog hold
  have hsafe := hs.voteSafe s
  rw [hterm, hpt] at hsafe
  refine ⟨_, hsafe, ?_⟩
  rw [hl.last, hl.term] at hlog
  unfold AtMost
  omega

/-- The place a thread goes to keeps its assertion, and what is sent and started is as
asserted. -/
theorem commitThread_step (hs : Sound (Majority Configs) w.ledger)
    (hext : Extends w.ledger w'.ledger) (hterm : w.ledger.term s = v.raft.term)
    (hserver : LogServer text w s v) (hnet : ∀ m ∈ net, commitMsg w m)
    (he : electionThread w s t) (hlt : logThread w v.raft.term t) (ht : commitThread w s t)
    (hin : VoteInTerm v t) (hfor : VoteForLog v t) (hsends : LeaderSends v t)
    (hack : ∀ i, World.acknowledged t o.thread = some i →
      ∀ p c, t = .replRecord p c ∨ t = .replInsert p c → w'.ledger.acc s p.leaderTerm p.index)
    (h : ThreadStep s v net env t o) :
    commitThread w' s o.thread ∧ (∀ m ∈ o.sent, commitMsg w' m) := by
  cases h with
  | goto hg =>
    refine ⟨commitThread_goto hnet he hext hs ?_ ht hg, by simp [Outcome.mk']⟩
    rintro p c q f rfl rfl hpos
    refine hack p.index ?_ p c (Or.inl rfl)
    simp [World.acknowledged, Outcome.mk', hpos.ne']
  | reply m =>
    refine ⟨trivial, ?_⟩
    intro m' hm'
    rw [Outcome.send, List.mem_singleton] at hm'
    rw [hm']
    exact commitMsg_mono hs hext ht
  | updateRaftState x k => exact ⟨commitThread_mono hs hext k ht, by simp [Outcome.mk']⟩
  | followerSetup t k => exact ⟨commitThread_mono hs hext k ht, by simp [Outcome.mk']⟩
  | followerNewTerm t a k _ => exact ⟨commitThread_mono hs hext k ht, by simp [Outcome.mk']⟩
  | followerSameTerm t a k _ => exact ⟨commitThread_mono hs hext k ht, by simp [Outcome.mk']⟩
  | voteCast p c li lt r x hlog hr =>
    refine ⟨?_, by simp [Outcome.mk']⟩
    show SafeVote w' p.dst p.candidateTerm p.logTerm p.logIndex
    rw [he.2]
    exact (safeVote_voteCast hs hterm hserver.log hin hfor hlog hr).mono hs hext
  | heartbeatCommit p c li =>
    refine ⟨⟨ht.1, ?_⟩, by simp [Outcome.mk']⟩
    intro hpos
    exact absurd ht.2 hpos.ne'
  | replDelete p c => exact ⟨⟨ht.1, ht.2.mono hext⟩, by simp [Outcome.mk']⟩
  | replInsert p c db _ =>
    refine ⟨⟨ht.1, ?_⟩, by simp [Outcome.mk']⟩
    intro _
    rw [ht.1]
    exact hack p.index rfl p c (Or.inr rfl)
  | replCommit p c => exact ⟨⟨ht.1, ht.2.mono hext⟩, by simp [Outcome.mk']⟩
  | replApply p c i => exact ⟨ht.2.mono hext, by simp⟩
  | replicaSend f e c lr hf =>
    refine ⟨rfl, ?_⟩
    intro m hm
    rw [Outcome.send, List.mem_singleton] at hm
    rw [hm]
    obtain ⟨hl, hcur⟩ := hsends hf
    exact (leaderRecord_send hserver hs.toMatching hlt hl hcur).mono hext
  | beatSend f c =>
    refine ⟨trivial, ?_⟩
    intro m hm
    rw [Outcome.send, List.mem_singleton] at hm
    rw [hm]
    exact fun hpos => absurd hpos (lt_irrefl 0)
  | writeInsert sql fed c db i hi =>
    refine ⟨?_, by simp [Outcome.mk']⟩
    show 0 < i
    rcases LogDB.insertLogRecord_cases hi with ⟨hnone, -⟩ | ⟨hidx, -⟩
    · exact absurd hnone (by simp)
    · rw [Option.some.inj hidx, hserver.log.next]
      omega
  | applyRecords i back =>
    refine ⟨?_, by simp⟩
    show commitThread w' s (if back then .reconciled else .done)
    split <;> trivial
  | requestVote servers r x hr => exact False.elim he
  | voteSend servers t n li lt f rest granted => exact False.elim he
  | voteLost servers t r x hr => exact False.elim he
  | leaderSetup t granted => exact False.elim he
  | leaderLock t granted applied index r i hr => exact False.elim he
  | _ => exact ⟨trivial, by simp [Outcome.mk']⟩

end Threads

/-! ## The leader's state -/

section Leader

variable {Configs : List ServerId → Prop} {text : ServerId → Sql} {w w' : World} {s : ServerId}
  {v : Server} {net : List Msg} {env : Env} {t : Thread} {o : Outcome} {r r' : RaftManager}

/-- Fewer registered requests and the same counts. -/
theorem LeaderState.of_eq (h : LeaderState Configs w s r) (hs : r'.servers = r.servers)
    (hsize : r'.numServers = r.numServers) (hn : r'.next = r.next)
    (hm : r'.matchIndex = r.matchIndex) (ht : r'.term = r.term)
    (hreq : ∀ i rr, r'.requests.requests.lookup i = some (some rr) →
      r.requests.requests.lookup i = some (some rr)) : LeaderState Configs w s r' where
  config := hs ▸ h.config
  book := h.book.of_requests hs hsize hn hm hreq
  acked := by
    intro f
    have hmatch : r'.matchOf f = r.matchOf f := by rw [RaftManager.matchOf, hm, RaftManager.matchOf]
    rw [hmatch, ht]
    exact h.acked f

theorem leaderState_replicateSuccess (h : LeaderState Configs w s r) {f : ServerId}
    (dbLindex : ℕ) (hacked : ∀ n, r.next.lookup f = some n → n = 0 ∨ w.ledger.acc f r.term n) :
    LeaderState Configs w s (r.replicateSuccess f dbLindex).1 := by
  have hsame := r.sameVote_replicateSuccess f dbLindex
  refine ⟨hsame.servers ▸ h.config, (h.book.replicateSuccess f dbLindex).1, ?_⟩
  intro g
  rw [hsame.term]
  rcases r.matchOf_replicateSuccess f dbLindex g with heq | ⟨rfl, hn⟩
  · rw [heq]
    exact h.acked g
  · exact hacked _ hn

theorem leaderState_replicateFailure (h : LeaderState Configs w s r) {f : ServerId}
    (hmove : r.MayMove f (r.nextOf f - 1)) : LeaderState Configs w s (r.replicateFailure f) := by
  have hsame := r.sameVote_replicateFailure f
  refine ⟨hsame.servers ▸ h.config, h.book.replicateFailure f hmove, ?_⟩
  intro g
  have hmatch : (r.replicateFailure f).matchOf g = r.matchOf g := by
    rw [RaftManager.matchOf, (r.replicateFailure_cases f).2.1, RaftManager.matchOf]
  rw [hmatch, hsame.term]
  exact h.acked g

theorem leaderState_resetIndex (h : LeaderState Configs w s r) {f : ServerId} {i : ℕ}
    (hmove : r.MayMove f (i + 1)) : LeaderState Configs w s (r.resetIndex f i) := by
  have hsame := r.sameVote_resetIndex f i
  refine ⟨hsame.servers ▸ h.config, h.book.resetIndex f i hmove, ?_⟩
  rcases r.resetIndex_cases f i with heq | ⟨-, heq⟩
  · rw [heq]
    exact h.acked
  · rw [heq]
    exact h.acked

theorem leaderState_addServer (h : LeaderState Configs w s r) (hl : r.state = .leader)
    {f : ServerId} (i : ℕ) (hf : f ∉ r.servers)
    (hquota : r.numServers % 2 = 0 ∨ ∀ e ∈ r.requests.requests.entries, ¬ e.2.isSome)
    (hconfig : Configs (r.servers ++ [f])) : LeaderState Configs w s (r.addServer f i) := by
  obtain ⟨hbook, hservers⟩ := h.book.addServer hl i hf hquota
  refine ⟨hservers ▸ hconfig, hbook, ?_⟩
  intro g
  have hterm : (r.addServer f i).term = r.term := by
    unfold RaftManager.addServer
    split <;> rfl
  rw [r.matchOf_addServer, hterm]
  exact h.acked g

theorem RaftCounts.of_eq (h : RaftCounts Configs w s r) (hstate : r'.state = r.state)
    (hs : r'.servers = r.servers) (hsize : r'.numServers = r.numServers) (hn : r'.next = r.next)
    (hm : r'.matchIndex = r.matchIndex) (ht : r'.term = r.term)
    (hreq : ∀ i rr, r'.requests.requests.lookup i = some (some rr) →
      r.requests.requests.lookup i = some (some rr)) : RaftCounts Configs w s r' where
  idle := by
    rw [hstate, hn]
    exact h.idle
  leader := by
    rw [hstate]
    exact fun hl => (h.leader hl).of_eq hs hsize hn hm ht hreq

theorem RaftCounts.next_lookup (h : RaftCounts Configs w s r) {f : ServerId} {n : ℕ}
    (hn : r.next.lookup f = some n) : r.state = .leader := by
  by_contra hne
  rw [h.idle hne, AList.lookup_empty] at hn
  exact absurd hn (by simp)

/-- **Every step of a thread keeps the count of replicas.** -/
theorem raftCounts_step (h : RaftCounts Configs w s v.raft) (ht : commitThread w s t)
    (hcounts : CountsRight Configs v t)
    (hlock : ∀ T g a i, t = .leaderLock T g a i → v.raft.state = .candidate →
      Configs v.raft.servers ∧ s ∈ v.raft.servers ∧ v.raft.numServers = v.raft.servers.length)
    (hstep : ThreadStep s v net env t o) : RaftCounts Configs w s o.server.raft := by
  cases hstep with
  | finish pending reconciling _ => exact h.of_eq rfl rfl rfl rfl rfl rfl (fun _ _ hrr => hrr)
  | followerNewTerm t a k _ =>
    refine ⟨fun _ => rfl, fun hl => ?_⟩
    have hl' : (v.raft.follower t a).1.state = .leader := hl
    rw [follower_state] at hl'
    exact absurd hl' (by simp)
  | followerSameTerm t a k _ =>
    refine ⟨fun _ => rfl, fun hl => ?_⟩
    have hl' : (v.raft.follower t a).1.state = .leader := hl
    rw [follower_state] at hl'
    exact absurd hl' (by simp)
  | requestVote servers r x hr =>
    obtain ⟨hc, -, rfl⟩ := requestVote_some hr
    have hne : v.raft.state ≠ .leader := by simp [hc]
    exact ⟨fun _ => h.idle hne, fun hl => absurd hl hne⟩
  | voteLost servers t r x hr =>
    obtain ⟨hc, -, rfl⟩ := resetVotedfor_some hr
    have hne : v.raft.state ≠ .leader := by simp [hc]
    exact ⟨fun _ => h.idle hne, fun hl => absurd hl hne⟩
  | leaderLock t granted applied index r i hr =>
    obtain ⟨hc, hl, -, -, hservers, -⟩ := leader_some hr
    obtain ⟨hconfig, hmem, hsize⟩ := hlock _ _ _ _ rfl hc
    obtain ⟨hbook, hzero⟩ := RaftManager.bookkeeping_leader hr hmem hsize
    exact ⟨fun hne => absurd hl hne, fun _ => ⟨hservers ▸ hconfig, hbook, fun f => Or.inl (hzero f)⟩⟩
  | voteCast p t li lt r x _ hr =>
    obtain ⟨-, rfl, -⟩ := updateVotedfor_some hr
    exact h.of_eq rfl rfl rfl rfl rfl rfl (fun _ _ hrr => hrr)
  | replicaSuccessLock f e i p =>
    have hsame := v.raft.sameVote_replicateSuccess f i
    cases hn : v.raft.next.lookup f with
    | none =>
      show RaftCounts Configs w s (v.raft.replicateSuccess f i).1
      rw [RaftManager.replicateSuccess_none (Or.inl hn)]
      exact h
    | some n =>
      have hl := h.next_lookup hn
      refine ⟨fun hne => absurd (hsame.state.trans hl) hne, fun _ => ?_⟩
      refine leaderState_replicateSuccess (h.leader hl) i ?_
      intro n' hn'
      have hcount : SuccessCounts v f p := hcounts
      rw [SuccessCounts, hn'] at hcount
      obtain ⟨rfl, hterm, -⟩ := hcount
      rcases Nat.eq_zero_or_pos p.index with h0 | hpos
      · exact Or.inl h0
      · rw [hterm, ← ht.1]
        exact Or.inr (ht.2 hpos)
  | replicaFailure f e p =>
    have hsame := v.raft.sameVote_replicateFailure f
    refine ⟨fun hne => ?_, fun hl => ?_⟩
    · have hne' : v.raft.state ≠ .leader := fun hl => hne (hsame.state.trans hl)
      obtain ⟨-, -, -, hn | ⟨hf, -⟩⟩ := v.raft.replicateFailure_cases f
      · exact hn.trans (h.idle hne')
      · rw [h.idle hne'] at hf
        exact absurd hf (AList.notMem_empty f)
    · exact leaderState_replicateFailure (h.leader (hsame.state.symm.trans hl)) hcounts
  | writeInsert sql fed t db i hi =>
    exact h.of_eq rfl rfl rfl rfl rfl rfl (RaftManager.lookup_allocate v.raft.requests i)
  | register i back =>
    have hsame := v.raft.sameVote_replicateLog v.tickets i
    by_cases hl : v.raft.state = .leader
    · refine ⟨fun hne => absurd (hsame.state.trans hl) hne, fun _ => ?_⟩
      obtain ⟨hnext, hmatch⟩ := v.raft.replicateLog_next v.tickets i
      refine ⟨?_, ((h.leader hl).book.replicateLog hl v.tickets ht (hcounts hl).1).1, ?_⟩
      · show Configs (v.raft.replicateLog v.tickets i).1.servers
        rw [hsame.servers]
        exact (h.leader hl).config
      · intro f
        have heq : (v.raft.replicateLog v.tickets i).1.matchOf f = v.raft.matchOf f := by
          rw [RaftManager.matchOf, hmatch, RaftManager.matchOf]
        show (v.raft.replicateLog v.tickets i).1.matchOf f = 0 ∨
          w.ledger.acc f (v.raft.replicateLog v.tickets i).1.term _
        rw [heq, hsame.term]
        exact (h.leader hl).acked f
    · refine ⟨fun _ => ?_, fun hl' => absurd (hsame.state.symm.trans hl') hl⟩
      exact (v.raft.replicateLog_next v.tickets i).1.trans (h.idle hl)
  | addServerLock f i =>
    by_cases hl : v.raft.state = .leader
    · obtain ⟨hf, hquota, hconfig⟩ := hcounts hl
      have hstate : (v.raft.addServer f i).state = .leader := by
        unfold RaftManager.addServer
        split
        · exact hl
        · exact hl
      exact ⟨fun hne => absurd hstate hne,
        fun _ => leaderState_addServer (h.leader hl) hl i hf hquota hconfig⟩
    · show RaftCounts Configs w s (v.raft.addServer f i)
      rw [RaftManager.addServer, if_pos hl]
      exact h
  | resetIndexLock f i =>
    have hsame := v.raft.sameVote_resetIndex f i
    refine ⟨fun hne => ?_, fun hl => ?_⟩
    · have hne' : v.raft.state ≠ .leader := fun hl => hne (hsame.state.trans hl)
      rcases v.raft.resetIndex_cases f i with heq | ⟨hf, -⟩
      · show (v.raft.resetIndex f i).next = ∅
        rw [heq]
        exact h.idle hne'
      · rw [h.idle hne'] at hf
        exact absurd hf (AList.notMem_empty f)
    · exact leaderState_resetIndex (h.leader (hsame.state.symm.trans hl)) hcounts
  | _ => exact h.of_eq rfl rfl rfl rfl rfl rfl (fun _ _ hrr => hrr)

end Leader

/-! ## Setting the commit index -/

section Commit

variable {Configs : List ServerId → Prop} {text : ServerId → Sql} {w w' : World} {s : ServerId}
  {v : Server} {net : List Msg} {env : Env} {t : Thread} {o : Outcome} {r : RaftManager}

/-- What is known when the leader `s` of term `T` sets its commit index to `i`: more than half
of the `n` servers of the zone have accepted the record, namely those of the set `Q`. -/
structure CommitQuorum (Configs : List ServerId → Prop) (w : World) (s : ServerId)
    (servers : List ServerId) (n T i : ℕ) (Q : Finset ServerId) : Prop where
  self : s ∈ Q
  size : n / 2 + 1 ≤ Q.card
  subset : Q ⊆ servers.toFinset
  majority : Majority Configs Q
  acked : ∀ f ∈ Q, ∃ m, i - 1 < m ∧ w.ledger.acc f T m

/-- The leader and the followers that are counted for a record. -/
theorem LeaderState.quorum (h : LeaderState Configs w s r) {m i : ℕ}
    (hown : w.ledger.acc s r.term m) (hi : 0 < i) (him : i ≤ m)
    (hcount : r.numServers / 2 ≤ (r.counted i).card) :
    CommitQuorum Configs w s r.servers r.numServers r.term i (insert s (r.counted i)) := by
  have hcard : (insert s (r.counted i)).card = (r.counted i).card + 1 :=
    Finset.card_insert_of_notMem (h.book.notMem_counted i)
  have hsub : insert s (r.counted i) ⊆ r.servers.toFinset := by
    intro f hf
    rw [List.mem_toFinset]
    rcases Finset.mem_insert.mp hf with rfl | hf
    · exact h.book.mem
    · exact (RaftManager.mem_counted.mp hf).1
  refine ⟨Finset.mem_insert_self _ _, by omega, hsub, ⟨r.servers, h.config, hsub, ?_⟩, ?_⟩
  · have := h.book.size
    omega
  · intro f hf
    rcases Finset.mem_insert.mp hf with rfl | hf
    · exact ⟨m, by omega, hown⟩
    · have hle := (RaftManager.mem_counted.mp hf).2.2
      exact ⟨r.matchOf f, by omega, (h.acked f).resolve_left (by omega)⟩

/-- The record of the current term in the log of a leader. -/
theorem ownRecord_entry (hserver : LogServer text w s v) (hl : v.raft.state = .leader) {i : ℕ}
    (hi : 0 < i) (hown : OwnRecord v i) :
    i ≤ (w.ledger.log s).length ∧ v.logdb.entry i = (w.ledger.llog v.raft.term)[i - 1]? ∧
      ∃ x, (w.ledger.llog v.raft.term)[i - 1]? = some (v.raft.term, x) := by
  have hle : i ≤ (w.ledger.log s).length := by
    by_contra hlt
    rw [OwnRecord, hserver.log.lookup_eq_none.mpr (by omega)] at hown
    exact absurd hown (by simp)
  obtain ⟨r, hr, -, -, hent⟩ := hserver.log.lookup_of_le hle
  rw [OwnRecord, hr, Option.map_some, Option.some.injEq] at hown
  rw [← hserver.llog hl]
  refine ⟨hle, ?_, r.sql, hown ▸ hent hi⟩
  rw [LogDB.entry, hr, hent hi, Option.map_some]

/-- **A commit index is set for a record that a quorum has accepted.** -/
theorem quorum_of_commit (hserver : LogServer text w s v) (hc : CommitServer Configs w s v)
    (hc' : RaftCounts Configs w s o.server.raft) (ht : commitThread w s t)
    (hcounts : CountsRight Configs v t) (hstep : ThreadStep s v net env t o) {f : ServerId}
    {T i : ℕ} {record : Option (ℕ × Sql)} (hob : Obs.commit f T i record ∈ o.obs) :
    f = s ∧ T = v.raft.term ∧ v.raft.state = .leader ∧ 0 < i ∧ OwnRecord v i ∧
      record = v.logdb.entry i ∧
      ∃ Q, CommitQuorum Configs w s v.raft.servers v.raft.numServers v.raft.term i Q := by
  cases hstep with
  | replicaSuccessLock g e j p =>
    obtain ⟨k, hk, heq⟩ := List.mem_map.mp hob
    rw [Option.mem_toList] at hk
    obtain ⟨rfl, rfl, rfl, rfl⟩ := Obs.commit.inj heq
    cases hn : v.raft.next.lookup g with
    | none =>
      rw [RaftManager.replicateSuccess_none (Or.inl hn)] at hk
      exact absurd hk (by simp)
    | some n =>
      have hl := hc.next_lookup hn
      have hsame := v.raft.sameVote_replicateSuccess g j
      obtain ⟨hpos, hn', ⟨rr, hrr, hone⟩, hcard⟩ :=
        ((hc.leader hl).book.replicateSuccess g j).2 k hk
      have hcount : SuccessCounts v g p := hcounts
      simp only [SuccessCounts, hn', hrr] at hcount
      have hown := hcount.2.2 hone
      have hle := (ownRecord_entry hserver hl hpos hown).1
      have hstate := hc'.leader (hsame.state.trans hl)
      have hq := hstate.quorum (m := (w.ledger.log s).length) (hsame.term ▸ hc.own hl) hpos hle
        (hsame.numServers ▸ hcard)
      rw [show _ = v.raft.servers from hsame.servers,
        show _ = v.raft.numServers from hsame.numServers,
        show _ = v.raft.term from hsame.term] at hq
      exact ⟨rfl, rfl, hl, hpos, hown, rfl, _, hq⟩
  | register j back =>
    obtain ⟨k, hk, heq⟩ := List.mem_map.mp hob
    rw [Option.mem_toList] at hk
    obtain ⟨rfl, rfl, rfl, rfl⟩ := Obs.commit.inj heq
    by_cases hl : v.raft.state = .leader
    · obtain ⟨hacked, hown⟩ := hcounts hl
      obtain ⟨rfl, hcard⟩ := ((hc.leader hl).book.replicateLog hl v.tickets ht hacked).2 k hk
      have hown' := hown (((hc.leader hl).book.replicas_eq_counted hacked).symm ▸ hcard)
      have hle := (ownRecord_entry hserver hl ht hown').1
      exact ⟨rfl, rfl, hl, ht, hown', rfl, _, (hc.leader hl).quorum (hc.own hl) ht hle hcard⟩
    · rw [RaftManager.replicateLog, if_pos hl] at hk
      exact absurd hk (by simp)
  | replApply p c j =>
    obtain ⟨lr, -, heq⟩ := List.mem_map.mp hob
    exact absurd heq (by simp)
  | applyRecords j back =>
    obtain ⟨lr, -, heq⟩ := List.mem_map.mp hob
    exact absurd heq (by simp)
  | _ => exact absurd hob (by simp [Outcome.mk', Outcome.send])

end Commit

/-! ## Every step keeps the invariant -/

section Step

variable {Configs : List ServerId → Prop} {text : ServerId → Sql} {w w' : World}
  {σ σ' : Cluster} {s : ServerId} {v : Server} {net : List Msg} {env : Env} {t : Thread}
  {o : Outcome} {e : Event}

/-- What a step of a thread leaves: a sound ledger, a right count, and, for a handler, the
acknowledgement of its record. -/
structure CommitStep (Configs : List ServerId → Prop) (w w' : World) (s : ServerId) (v : Server)
    (env : Env) (t : Thread) (o : Outcome) : Prop where
  ledger : LedgerStep w.ledger w'.ledger s
  sound : Sound (Majority Configs) w'.ledger
  server : CommitServer Configs w' s o.server
  obs : ∀ ob ∈ o.obs, commitObs Configs w' ob
  ack : ∀ i, World.acknowledged t o.thread = some i →
    ∀ p c, t = .replRecord p c ∨ t = .replInsert p c → w'.ledger.acc s p.leaderTerm p.index
  log : LogChange v (w.ledger.log s) t o (w'.ledger.log s)
  applied : ∀ A : ℕ → Prop, v.logdb.AppliedIn A →
    (∀ i, t.Applies i → A i ∧ (v.logdb.lastApplied < i → v.logdb.Finds env.backend i)) →
    o.server.logdb.AppliedIn A

/-- The acknowledgement of a handler is in the ledger. -/
theorem acknowledged_acc {l' : List (Entry Sql)} (hm : Matching w.ledger)
    (hl : v.logdb.Holds (text s) (w.ledger.log s)) (hok : LogInPlace v t)
    (hf : InsertFinds v env t) (hin : HandlerInTerm v t) (hknown : KnownFinds v env t)
    (hlt : logThread w v.raft.term t) (ht : commitThread w s t)
    (hl' : o.server.logdb.Holds (text s) l') (hchange : LogChange v (w.ledger.log s) t o l')
    (h : ThreadStep s v net env t o) {i : ℕ} (hack : World.acknowledged t o.thread = some i)
    (p : ReplicateParams) (c : ℕ) (hp : t = .replRecord p c ∨ t = .replInsert p c) :
    (w.next s v t o).ledger.acc s p.leaderTerm p.index := by
  obtain ⟨q, d, hq, rfl, -, -, hterm, hraft, -⟩ :=
    acknowledged_spec hm hl hok hf hin hknown hlt ht hl' hchange hack h
  have hnew : Thread.replRecord q d = .replRecord p c ∨ Thread.replInsert q d = .replInsert p c →
      (w.next s v t o).ledger =
        (w.ledger.move s o.server.raft.term o.server.logdb.log).accept s q.index →
      (w.next s v t o).ledger.acc s p.leaderTerm p.index := by
    intro heq hledger
    have hpq : p = q := by
      rcases heq with heq | heq
      · exact (Thread.replRecord.inj heq).1.symm
      · exact (Thread.replInsert.inj heq).1.symm
    rw [hledger, hpq]
    refine Or.inr ⟨rfl, ?_, rfl⟩
    simp [Ledger.move, hraft, hterm]
  rcases hp with rfl | rfl
  · rcases hq with hq | hq
    · exact hnew (Or.inl hq.symm) (by simp only [World.next, World.nextLedger, hack])
    · exact absurd hq (by simp)
  · rcases hq with hq | hq
    · exact absurd hq (by simp)
    · exact hnew (Or.inr hq.symm) (by simp only [World.next, World.nextLedger, hack])

/-- A leader has accepted the whole of its own log. -/
theorem LedgerChange.own {L L' : Ledger ServerId Sql} {l' : List (Entry Sql)}
    (h : LedgerChange L s v t o l' L') (hterm : L.term s = v.raft.term)
    (hterm' : o.server.raft.term = v.raft.term) (hl : o.server.raft.state = .leader)
    (hcases : v.raft.state = .leader ∨
      (v.raft.state = .candidate ∧ ∃ T g a i, t = .leaderLock T g a i)) (hext : Extends L L')
    (hown : v.raft.state = .leader → L.acc s v.raft.term (L.log s).length) :
    L'.acc s o.server.raft.term l'.length := by
  -- without an election the server led before, and its log is the same
  have hkeep : ¬ World.Elected v o → (v.raft.state = .leader → l' = L.log s) →
      L'.acc s o.server.raft.term l'.length := by
    intro hne hleader
    have hlead : v.raft.state = .leader := by
      rcases hcases with hlead | ⟨hc, -⟩
      · exact hlead
      · exact absurd ⟨hc, hl⟩ hne
    rw [hleader hlead, hterm']
    exact hext.acc_le _ _ _ (hown hlead)
  cases h with
  | elect _ _ heq => exact Or.inr ⟨rfl, hterm'.trans hterm.symm, by rw [heq]⟩
  | append sql _ _ heq => exact Or.inr ⟨rfl, hterm'.trans hterm.symm, by rw [heq]; simp⟩
  | move hne _ hleader _ _ => exact hkeep hne hleader
  | acknowledge i hne _ hleader _ _ => exact hkeep hne hleader

/-- **What a step of a thread leaves.** -/
theorem commits_step (hs : Sound (Majority Configs) w.ledger) (hes : ElectionServer w s v)
    (hserver : LogServer text w s v) (hcs : CommitServer Configs w s v) (hok : LogInPlace v t)
    (hf : InsertFinds v env t) (hin : HandlerInTerm v t) (hknown : KnownFinds v env t)
    (hcounts : CountsRight Configs v t)
    (hlt : logThread w v.raft.term t) (ht : commitThread w s t)
    (helect : ElectedBy Configs w s v t o)
    (hlock : ∀ T g a i, t = .leaderLock T g a i → v.raft.state = .candidate →
      Configs v.raft.servers ∧ s ∈ v.raft.servers ∧ v.raft.numServers = v.raft.servers.length)
    (h : ThreadStep s v net env t o) : CommitStep Configs w (w.next s v t o) s v env t o := by
  obtain ⟨l', hl', hchange, happlied⟩ := logChange_of_step hserver.log (hs.log_chained s) hok hf hlt h
  have hledger := ledgerChange_of_step hs.toMatching hes.term hlt hl' hchange h
  obtain ⟨-, hstep, hlog⟩ := hledger.matching hs.toMatching hes.term h.term_le hserver.won
    hserver.llog (fun h1 h2 => (helect h1 h2).1)
  have hsound := hledger.sound hs hes.term hserver hok hf hin hknown hlt ht hl' hchange h helect
  have hraft := raftCounts_step hcs.toRaftCounts ht hcounts hlock h
  refine ⟨hstep, hsound, ⟨⟨hraft.idle, fun hl => (hraft.leader hl).mono hstep.ext⟩, ?_⟩, ?_, ?_,
    ?_, happlied⟩
  · -- a leader has accepted its own log
    intro hl
    obtain ⟨hterm, hcases⟩ := h.leader_cases hl
    rw [hlog]
    exact hledger.own hes.term hterm hl hcases hstep.ext hcs.own
  · intro ob hob
    cases ob with
    | applied f i T x => trivial
    | commit f T i record =>
      obtain ⟨rfl, rfl, hl, hpos, hown, hrecord, Q, hQ⟩ :=
        quorum_of_commit hserver hcs hraft ht hcounts h hob
      obtain ⟨-, hent, hx⟩ := ownRecord_entry hserver hl hpos hown
      have hchosen : commitObs Configs w (.commit f v.raft.term i record) :=
        ⟨hpos, ⟨hx, Q, hQ.majority, hQ.acked⟩, hent.symm.trans hrecord.symm⟩
      exact commitObs_mono hstep.ext hchosen
  · intro i hack p c hp
    exact acknowledged_acc hs.toMatching hserver.log hok hf hin hknown hlt ht hl' hchange h hack p c hp
  · rw [hlog]
    exact hchange

/-- The timer thread has no part in replication. -/
theorem commitThread_of_timer (t : Thread) (h : electionTimer Configs w s v t) :
    commitThread w s t := by
  induction t with
  | updateRaftState x k ih => exact ih h
  | followerSetup t k ih =>
    rw [show k = .done from h]
    trivial
  | followerLock t a k ih =>
    rw [show k = .done from h]
    trivial
  | _ => trivial

/-- The index that the reconciliation thread of a new leader registers. -/
theorem leader_register_pos {r r' : RaftManager} {applied index i : ℕ}
    (h : r.leader s applied index = some (r', some i)) : 0 < i := by
  unfold RaftManager.leader at h
  split at h
  · exact absurd h (by simp)
  · dsimp only at h
    by_cases hlt : applied < index
    · simp only [if_pos hlt, Option.some.injEq, Prod.mk.injEq] at h
      rw [← h.2]
      omega
    · simp [hlt] at h

/-- The timer thread sends nothing but requests for votes. -/
theorem commitMsg_timer (he : electionTimer Configs w s v t) (h : ThreadStep s v net env t o) :
    ∀ m ∈ o.sent, commitMsg w' m := by
  cases h with
  | reply m => exact False.elim he
  | voteSend servers t n li lt f rest granted => simp [Outcome.send, commitMsg]
  | replicaSend f e c lr hf => exact False.elim he
  | beatSend f c => exact False.elim he
  | _ => simp [Outcome.mk']

/-- What the threads started by a step have to meet. -/
theorem commitThread_started (h : ThreadStep s v net env t o) :
    ∀ t' ∈ o.started, commitThread w s t' := by
  cases h with
  | leaderLock t granted applied index r i hr =>
    intro t' ht'
    obtain ⟨j, rfl, rfl⟩ := Option.mem_map.mp (Option.mem_toList.mp ht')
    exact leader_register_pos hr
  | _ => simp [Outcome.mk', Outcome.send]

/-- What is known of the thread that runs: a thread that is about to become leader has the votes
of a majority. -/
structure CommitRunning (Configs : List ServerId → Prop) (w : World) (s : ServerId) (v : Server)
    (t : Thread) : Prop where
  log : logThread w v.raft.term t
  commit : commitThread w s t
  elect : (∃ T g a i, t = .leaderLock T g a i) → v.raft.state = .candidate →
    w.ledger.won v.raft.term = none ∧ (∀ e ∈ w.ledger.log s, e.1 < v.raft.term) ∧
    ∃ Q, Majority Configs Q ∧ ∀ f ∈ Q, ∃ l, VoteSafe w.ledger f v.raft.term v.raft.term l ∧
      UpToDate (w.ledger.log s) l
  lock : (∃ T g a i, t = .leaderLock T g a i) → v.raft.state = .candidate →
    Configs v.raft.servers ∧ s ∈ v.raft.servers ∧ v.raft.numServers = v.raft.servers.length

theorem commitRunning_timer (hconf : ZoneConfigs Configs) (he : (election Configs).Holds w σ)
    (hl : (logs text).Holds w σ) (hc : (commits Configs).Holds w σ) :
    CommitRunning Configs w s (σ.node s).server (σ.node s).timer := by
  have het := he.timer s
  refine ⟨hl.timer s, commitThread_of_timer _ het, ?_, ?_⟩
  · rintro ⟨T, g, a, i, heq⟩ hcand
    have hct := hc.timer s
    rw [heq] at het hct
    exact elected_votes hconf he.world (he.server s) hc.world a i het hct hcand
  · rintro ⟨T, g, a, i, heq⟩ hcand
    rw [heq] at het
    obtain ⟨servers, -, hcamp⟩ := het
    obtain ⟨-, -, hlist, hsize, -⟩ := hcamp.candidacy hcand
    rw [hlist]
    exact ⟨hcamp.config, hcamp.mem, hsize⟩

theorem commitRunning_thread (he : (election Configs).Holds w σ) (hl : (logs text).Holds w σ)
    (hc : (commits Configs).Holds w σ) (hmem : t ∈ (σ.node s).threads) :
    CommitRunning Configs w s (σ.node s).server t := by
  have hnot : ¬ ∃ T g a j, t = .leaderLock T g a j := by
    rintro ⟨T, g, a, j, rfl⟩
    exact he.thread s _ hmem
  exact ⟨hl.thread s t hmem, hc.thread s t hmem, fun heq => absurd heq hnot,
    fun heq => absurd heq hnot⟩

theorem commitRunning_of_running (hconf : ZoneConfigs Configs)
    (he : (election Configs).Holds w σ) (hl : (logs text).Holds w σ)
    (hc : (commits Configs).Holds w σ) (hrun : σ.running e = some (s, t, env)) :
    CommitRunning Configs w s (σ.node s).server t := by
  cases e with
  | timer s' env' =>
    simp only [Cluster.running, Option.some.injEq, Prod.mk.injEq] at hrun
    obtain ⟨rfl, rfl, -⟩ := hrun
    exact commitRunning_timer hconf he hl hc
  | thread s' i env' =>
    simp only [Cluster.running, Option.map_eq_some_iff, Prod.mk.injEq] at hrun
    obtain ⟨t', ht', rfl, rfl, -⟩ := hrun
    exact commitRunning_thread he hl hc (List.mem_of_getElem? ht')
  | _ => exact absurd hrun (by simp [Cluster.running])

theorem commits_running (hconf : ZoneConfigs Configs) (he : (election Configs).Holds w σ)
    (hl : (logs text).Holds w σ) (hc : (commits Configs).Holds w σ) (hok : CommitOk Configs σ e)
    (hrun : σ.running e = some (s, t, env))
    (hstep : ThreadStep s (σ.node s).server σ.net env t o) :
    CommitStep Configs w (w.next s (σ.node s).server t o) s (σ.node s).server env t o := by
  have hr := commitRunning_of_running hconf he hl hc hrun
  exact commits_step hc.world (he.server s) (hl.server s) (hc.server s) (hok.log.elim hrun)
    (hok.found.elim hrun) (hok.handler.elim hrun) (hok.known.elim hrun) (hok.counts.elim hrun) hr.log hr.commit
    (fun hel heq => hr.elect heq hel.1) (fun T g a i heq => hr.lock ⟨T, g, a, i, heq⟩) hstep

/-- **Every step keeps the invariant of commit quorums.** -/
theorem commits_move (hconf : ZoneConfigs Configs) (he : (election Configs).Holds w σ)
    (hl : (logs text).Holds w σ) (hc : (commits Configs).Holds w σ) (hok : CommitOk Configs σ e)
    (hmove : Cluster.Move w σ e σ' w') : (commits Configs).Holds w' σ' := by
  cases hmove with
  | timeout s servers htimer hstate =>
    have hs := hc.server s
    have hne : (σ.node s).server.raft.state ≠ .leader := by simp [hstate]
    exact hc.put (commits_frame hc.world (LedgerStep.refl w.ledger s) _ _) hc.world
      ⟨⟨fun _ => hs.idle hne, fun hl => absurd hl (by simp)⟩, fun hl => absurd hl (by simp)⟩
      trivial (fun t ht => Or.inl ht) (by simp) (by simp)
  | timer s env o hstep =>
    have hout := commits_running hconf he hl hc hok rfl hstep
    have hlog := hout.log.timer (he.timer s)
    refine hc.timer_step (commits_frame hc.world hout.ledger _ _)
      ⟨hout.sound, hout.server, ?_, ?_, hout.obs⟩ ?_
    · exact commitThread_started hstep
    · exact commitMsg_timer (he.timer s) hstep
    · exact commitTimer_step hc.world hout.ledger.ext (he.server s).term (hl.server s).log hlog
        hc.msg (he.timer s) (hc.timer s) hstep
  | thread s i env t o hi hstep =>
    have hmem := List.mem_of_getElem? hi
    have hrun := Cluster.running_thread hi env
    have hout := commits_running hconf he hl hc hok hrun hstep
    have hq := quiet_of_electionThread (he.thread s t hmem) hstep
    obtain ⟨hthread, hsent⟩ := commitThread_step hc.world hout.ledger.ext (he.server s).term
      (hl.server s) hc.msg (he.thread s t hmem) (hl.thread s t hmem) (hc.thread s t hmem)
      (hok.vote.elim hrun) (hok.voteLog.elim hrun) (hok.sends.elim hrun) hout.ack hstep
    refine hc.thread_step (commits_frame hc.world hout.ledger _ _)
      ⟨hout.sound, hout.server, commitThread_started hstep, hsent, hout.obs⟩ hthread ?_
    refine commitTimer_mono hc.world hout.ledger.ext ?_ ?_ _ (hc.timer s)
    · exact fun hcand => ⟨(hq.candidate hcand).1, (hq.candidate hcand).2.1⟩
    · exact fun hund => hout.log.undecided (hok.handler.elim hrun) (hl.thread s t hmem)
        (hc.thread s t hmem) hund
  | start e s t pending hstart =>
    have hs := hc.server s
    refine hc.put (commits_frame hc.world (LedgerStep.refl w.ledger s) _ _) hc.world
      ⟨hs.toRaftCounts.of_eq rfl rfl rfl rfl rfl rfl (fun _ _ hrr => hrr), hs.own⟩ ?_ ?_
      (by simp) (by simp)
    · refine commitTimer_mono (v := (σ.node s).server) hc.world (Extends.refl _) ?_
        (fun _ => rfl) _ (hc.timer s)
      exact fun hcand => ⟨hcand, rfl⟩
    · intro t' ht'
      refine (List.mem_append.mp ht').imp_right ?_
      intro heq
      rw [List.mem_singleton.mp heq]
      cases hstart with
      | replicate hm hdst => exact ⟨hdst, hc.msg _ hm⟩
      | _ => trivial
  | restart s servers now text' =>
    refine hc.put (commits_frame hc.world (LedgerStep.refl w.ledger s) _ _) hc.world
      ⟨⟨fun _ => rfl, fun hl => absurd hl ?_⟩, fun hl => absurd hl ?_⟩ trivial (by simp) (by simp)
      (by simp)
    · simp [Cluster.restarted, RaftManager.construct]
    · simp [Cluster.restarted, RaftManager.construct]

theorem commits_init (Configs : List ServerId → Prop) (zone : List ServerId)
    (text : ServerId → Sql) : (commits Configs).Holds World.init (Cluster.init zone text) where
  world :=
    { (logs_init zone text).world with
      acc_spec := fun _ _ _ h => False.elim h
      won_spec := fun _ h => absurd rfl h }
  server := fun s => ⟨⟨fun _ => rfl, fun hl => absurd hl (by
    simp [Cluster.init, RaftManager.construct])⟩, fun hl => absurd hl (by
    simp [Cluster.init, RaftManager.construct])⟩
  timer := fun s => trivial
  thread := fun s t ht => absurd ht (by simp [Cluster.init])
  msg := fun m hm => absurd hm (by simp [Cluster.init])
  obs := fun ob hob => absurd hob (by simp [Cluster.init])

/-- The three invariants together. -/
structure CommitInv (Configs : List ServerId → Prop) (text : ServerId → Sql) (w : World)
    (σ : Cluster) : Prop where
  election : (election Configs).Holds w σ
  logs : (logs text).Holds w σ
  commits : (commits Configs).Holds w σ

theorem CommitInv.move (hconf : ZoneConfigs Configs) (h : CommitInv Configs text w σ)
    (hok : CommitOk Configs σ e) (hmove : Cluster.Move w σ e σ' w') :
    CommitInv Configs text w' σ' where
  election := (election_move hconf h.election hok.toElectionOk hmove).1
  logs := logs_move hconf h.election h.logs hok.toLogOk hmove
  commits := commits_move hconf h.election h.logs h.commits hok hmove

/-- In every state of a run there is a world with the invariants. -/
theorem commitInv_reach (hconf : ZoneConfigs Configs) (zone : List ServerId)
    (hrun : Reach Cluster.step (CommitOk Configs) (Cluster.init zone text) σ) :
    ∃ w, CommitInv Configs text w σ := by
  refine hrun.inv (P := fun σ => ∃ w, CommitInv Configs text w σ)
    ⟨World.init, election_init Configs zone text, logs_init zone text,
      commits_init Configs zone text⟩ ?_
  rintro σ₁ e σ₂ ⟨w₁, h₁⟩ hok hstep
  obtain ⟨w₂, hmove⟩ := Cluster.step_cases w₁ hstep
  exact ⟨w₂, h₁.move hconf hok hmove⟩

end Step

/-! ## Commit quorums -/

/-- The step that sets a commit index, from what it adds to the observations. -/
theorem Cluster.Move.commit_cases {w w' : World} {σ σ' : Cluster} {e : Event} {ob : Obs}
    (h : Cluster.Move w σ e σ' w') (hobs : σ'.obs = ob :: σ.obs) :
    ∃ s t env o, σ.running e = some (s, t, env) ∧
      ThreadStep s (σ.node s).server σ.net env t o ∧ ob ∈ o.obs ∧
      (σ'.node s).server = o.server := by
  have hmem : ∀ {os : List Obs}, os ++ σ.obs = ob :: σ.obs → ob ∈ os := by
    intro os heq
    have := List.append_cancel_right (show os ++ σ.obs = [ob] ++ σ.obs from heq)
    simp [this]
  cases h with
  | timeout s servers _ _ => exact absurd (hmem hobs) (by simp)
  | timer s env o hstep =>
    exact ⟨s, _, env, o, rfl, hstep, hmem hobs, by simp [Cluster.put]⟩
  | thread s i env t o hi hstep =>
    exact ⟨s, t, env, o, Cluster.running_thread hi env, hstep, hmem hobs, by simp [Cluster.put]⟩
  | start e s t pending _ => exact absurd (hmem hobs) (by simp)
  | restart s servers now text => exact absurd (hmem hobs) (by simp)

/-- The servers of a list that have the record `x` at the index `i`. -/
def Cluster.holders (σ : Cluster) (servers : List ServerId) (i : ℕ) (x : ℕ × Sql) :
    Finset ServerId :=
  servers.toFinset.filter (fun f => (σ.node f).server.logdb.entry i = some x)

/-- **Commit quorum.**  In every run whose steps meet `CommitOk`: when a leader sets its commit
index to `i`, it has a record there, and more than half of its servers, itself included, have
this record. -/
theorem commit_quorum_of_commitOk {Configs : List ServerId → Prop} (hconf : ZoneConfigs Configs)
    (zone : List ServerId) (text : ServerId → Sql) {σ σ' : Cluster} {e : Event}
    (hrun : Reach Cluster.step (CommitOk Configs) (Cluster.init zone text) σ)
    (hok : CommitOk Configs σ e) (hstep : σ.step e = some σ') {s : ServerId} {T i : ℕ}
    {record : Option (ℕ × Sql)} (hobs : σ'.obs = .commit s T i record :: σ.obs) :
    ∃ x, record = some x ∧ s ∈ σ.holders (σ.node s).server.raft.servers i x ∧
      (σ.node s).server.raft.numServers / 2 + 1 ≤
        (σ.holders (σ.node s).server.raft.servers i x).card := by
  obtain ⟨w, h⟩ := commitInv_reach hconf zone hrun
  obtain ⟨w', hmove⟩ := Cluster.step_cases w hstep
  obtain ⟨s', t, env, o, hrunning, ht, hob, -⟩ := hmove.commit_cases hobs
  have hr := commitRunning_of_running hconf h.election h.logs h.commits hrunning
  have hcs := h.commits.server s'
  have hcounts := hok.counts.elim hrunning
  have hraft := raftCounts_step hcs.toRaftCounts hr.commit hcounts
    (fun T g a i heq => hr.lock ⟨T, g, a, i, heq⟩) ht
  obtain ⟨rfl, rfl, hl, hpos, hown, hrecord, Q, hQ⟩ :=
    quorum_of_commit (h.logs.server s') hcs hraft hr.commit hcounts ht hob
  obtain ⟨-, hent, x, hx⟩ := ownRecord_entry (h.logs.server s) hl hpos hown
  have hsub : Q ⊆ σ.holders (σ.node s).server.raft.servers i ((σ.node s).server.raft.term, x) := by
    intro f hf
    refine Finset.mem_filter.mpr ⟨hQ.subset hf, ?_⟩
    -- who accepted a chosen record in its term has it
    obtain ⟨m, him, hacc⟩ := hQ.acked f hf
    have hheld := h.commits.world.chosen_held hconf.meet ⟨⟨x, hx⟩, Q, hQ.majority, hQ.acked⟩
      hacc him
    have hsucc := (h.logs.server f).log.succ (i - 1)
    rw [Nat.sub_add_cancel hpos] at hsucc
    rw [hsucc]
    refine getElem?_of_isPrefix hheld ?_
    rw [List.getElem?_take, if_pos (by omega)]
    exact hx
  exact ⟨_, hrecord.trans (hent.trans hx), hsub hQ.self,
    hQ.size.trans (Finset.card_le_card hsub)⟩

/-- Server `0` wins term 1, server `1` acknowledges its record, and the reply has arrived. -/
def commitRun : List (ℕ × Event) :=
  replicationRun.append [(1, .thread 0 1 (.answer true 1)), (1, .thread 0 1 .calm)]

theorem commit_quorum_commitRun :
    ∃ σ, Reach Cluster.step (CommitOk (· = [0, 1, 2]))
        (Cluster.init [0, 1, 2] (fun _ => ['0'])) σ ∧
      2 ≤ (σ.holders (σ.node 0).server.raft.servers 1 (1, ['X'])).card := by
  have hrun : ((runChecked Cluster.step (CommitOk (· = [0, 1, 2]))
      (Cluster.init [0, 1, 2] (fun _ => ['0'])) (repeated commitRun)).map
        (fun σ => (decide (CommitOk (· = [0, 1, 2]) σ (.thread 0 1 .calm)), σ.obs,
          (σ.step (.thread 0 1 .calm)).map Cluster.obs, (σ.node 0).server.raft.numServers))) =
      some (true, [], some [.commit 0 1 1 (some (1, ['X']))], 3) := by decide
  obtain ⟨σ, hσ, heq⟩ := Option.map_eq_some_iff.mp hrun
  simp only [Prod.mk.injEq, decide_eq_true_eq] at heq
  obtain ⟨hok, hobs, hstep, hn⟩ := heq
  obtain ⟨σ', hσ', hobs'⟩ := Option.map_eq_some_iff.mp hstep
  have hreach := reach_of_runChecked _ hσ
  obtain ⟨x, hx, -, hcard⟩ := commit_quorum_of_commitOk (zoneConfigs_fixed (by decide)) [0, 1, 2]
    (fun _ => ['0']) hreach hok hσ' (hobs'.trans (by rw [hobs]))
  rw [← Option.some.inj hx, hn] at hcard
  exact ⟨σ, hreach, hcard⟩

/-- The run in which a replica is counted that is none.  The record `X` of server `0` is
acknowledged by server `1`, but the reply is still in flight when server `0` steps down for a
candidate of term 2.  Server `0` is elected again in term 3 and replicates `X` to server `1`
once more; a writer inserts `Y`.  Then the old reply arrives, and `replicate_success` takes it
for an acknowledgement of the record at `next`, which is `Y`. -/
def inFlightRun : List (ℕ × Event) :=
  replicationRun.append [(1, .timeout 2 [0, 1, 2]), (13, .timer 2 .calm),
    (1, .recvVote 0 ⟨2, 0, 2, 0, 0⟩), (7, .thread 0 2 .calm), (1, .timeout 0 [0, 1, 2]),
    (4, .timer 0 .calm), (1, .recvVote 1 ⟨0, 1, 3, 1, 1⟩), (8, .thread 1 2 .calm),
    (1, .timer 0 (.answer true 1)), (2, .timer 0 .calm), (1, .thread 0 3 .calm), (1, .wake 0 1),
    (4, .thread 0 4 .calm), (1, .recvReplicate 1 ⟨0, 1, 0, 3, 1, 1, 0, 0, none, ['X']⟩),
    (5, .thread 1 3 .calm), (1, .thread 0 4 (.answer true 3)), (2, .thread 0 4 .calm),
    (1, .write 0 ['Y'] none), (4, .thread 0 5 .calm), (1, .thread 0 1 (.answer true 1)),
    (1, .thread 0 1 .calm)]

/-- Without the condition, a commit index can be set for a record that only the leader has. -/
theorem commit_without_quorum :
    ¬ ∀ σ σ' e, Reach Cluster.step (fun _ e => e.inZone [0, 1, 2] = true)
        (Cluster.init [0, 1, 2] (fun _ => ['0'])) σ → e.inZone [0, 1, 2] = true →
      σ.step e = some σ' → ∀ s T i record, σ'.obs = .commit s T i record :: σ.obs →
        ∃ x, record = some x ∧ (σ.node s).server.raft.numServers / 2 + 1 ≤
          (σ.holders (σ.node s).server.raft.servers i x).card := by
  intro h
  have hrun : ((runEvents Cluster.step (Cluster.init [0, 1, 2] (fun _ => ['0']))
      (repeated inFlightRun)).map (fun σ => (σ.obs, (σ.step (.thread 0 1 .calm)).map Cluster.obs,
        (σ.node 0).server.raft.numServers,
        (σ.holders (σ.node 0).server.raft.servers 2 (3, ['Y'])).card))) =
      some ([.commit 0 3 1 (some (1, ['X']))],
        some [.commit 0 3 2 (some (3, ['Y'])), .commit 0 3 1 (some (1, ['X']))], 3, 1) := by
    decide
  obtain ⟨σ, hσ, heq⟩ := Option.map_eq_some_iff.mp hrun
  simp only [Prod.mk.injEq] at heq
  obtain ⟨hobs, hstep, hn, hcard⟩ := heq
  obtain ⟨σ', hσ', hobs'⟩ := Option.map_eq_some_iff.mp hstep
  have hzone : ∀ e ∈ repeated inFlightRun, e.inZone [0, 1, 2] = true := by decide
  obtain ⟨x, hx, hle⟩ := h σ σ' _ (reach_of_runEvents _ hzone hσ) rfl hσ' _ _ _ _
    (hobs'.trans (by rw [hobs]))
  rw [← Option.some.inj hx, hn, hcard] at hle
  exact absurd hle (by decide)

/-! ## Leader completeness -/

/-- **Leader completeness.**  In a zone with a fixed set of servers, in every run whose steps
meet `CommitOk`: the record for which a leader has set its commit index is in the log of every
leader of a later term. -/
theorem leader_complete_of_commitOk {zone : List ServerId} (hzone : zone.Nodup)
    (text : ServerId → Sql) {σ : Cluster}
    (hrun : Reach Cluster.step (CommitOk (· = zone)) (Cluster.init zone text) σ)
    {s s' : ServerId} {T i : ℕ} {record : Option (ℕ × Sql)}
    (hcommit : Obs.commit s T i record ∈ σ.obs) (hl : (σ.node s').server.raft.state = .leader)
    (hterm : T < (σ.node s').server.raft.term) :
    record ≠ none ∧ (σ.node s').server.logdb.entry i = record := by
  have hconf := zoneConfigs_fixed hzone
  obtain ⟨w, h⟩ := commitInv_reach hconf zone hrun
  obtain ⟨hpos, hchosen, hrecord⟩ := h.commits.obs _ hcommit
  have hserver := h.logs.server s'
  obtain ⟨x, hx⟩ := hchosen.1
  have hpre := h.commits.world.chosen_isPrefix_llog hconf.meet hchosen _ hterm
    (by rw [hserver.won hl]; simp)
  rw [← hserver.llog hl] at hpre
  have hsucc := hserver.log.succ (i - 1)
  rw [Nat.sub_add_cancel hpos] at hsucc
  rw [← hrecord, hsucc, hx]
  refine ⟨by simp, getElem?_of_isPrefix hpre ?_⟩
  rw [List.getElem?_take, if_pos (by omega)]
  exact hx

/-- After `commitRun` the commit index is set, and server `1` wins term 2. -/
def successionRun : List (ℕ × Event) :=
  commitRun.append [(1, .thread 0 1 .calm), (1, .timeout 1 [0, 1, 2]), (6, .timer 1 .calm),
    (1, .recvVote 2 ⟨1, 2, 2, 1, 1⟩), (8, .thread 2 0 .calm), (1, .timer 1 (.answer true 0)),
    (2, .timer 1 .calm)]

theorem leader_complete_successionRun :
    ∃ σ, Reach Cluster.step (CommitOk (· = [0, 1, 2]))
        (Cluster.init [0, 1, 2] (fun _ => ['0'])) σ ∧
      (σ.node 1).server.raft.state = .leader ∧
      (σ.node 1).server.logdb.entry 1 = some (1, ['X']) := by
  have hrun : ((runChecked Cluster.step (CommitOk (· = [0, 1, 2]))
      (Cluster.init [0, 1, 2] (fun _ => ['0'])) (repeated successionRun)).map
        (fun σ => (σ.obs, (σ.node 1).server.raft.state, (σ.node 1).server.raft.term))) =
      some ([.commit 0 1 1 (some (1, ['X']))], .leader, 2) := by decide
  obtain ⟨σ, hσ, heq⟩ := Option.map_eq_some_iff.mp hrun
  simp only [Prod.mk.injEq] at heq
  obtain ⟨hobs, hl, hterm⟩ := heq
  have hreach := reach_of_runChecked _ hσ
  have hcommit : Obs.commit 0 1 1 (some (1, ['X'])) ∈ σ.obs := by
    rw [hobs]
    exact List.mem_singleton_self _
  exact ⟨σ, hreach, hl, (leader_complete_of_commitOk (by decide) _ hreach hcommit hl
    (by rw [hterm]; decide)).2⟩

/-- The run in which a committed record is lost.  Server `0` leads term 1 and server `2` leads
term 2, and each has a record that nobody else has.  Server `0` is elected again in term 3, and
its reconciliation replicates its old record to server `1` and commits it.  Server `2`, whose
last record is of a later term, is then elected in term 4 with the vote of server `1`. -/
def oldTermRun : List (ℕ × Event) :=
  electionRun.append [(1, .write 0 ['X'] none), (3, .thread 0 0 .calm), (1, .timeout 2 [0, 1, 2]),
    (15, .timer 2 .calm), (1, .recvVote 1 ⟨2, 1, 2, 0, 0⟩), (8, .thread 1 1 .calm),
    (1, .timer 2 (.answer true 1)), (2, .timer 2 .calm), (1, .write 2 ['Y'] none),
    (3, .thread 2 0 .calm), (1, .recvVote 0 ⟨2, 0, 2, 0, 0⟩), (7, .thread 0 1 .calm),
    (1, .timeout 0 [0, 1, 2]), (4, .timer 0 .calm), (1, .recvVote 1 ⟨0, 1, 3, 1, 1⟩),
    (8, .thread 1 2 .calm), (1, .timer 0 (.answer true 2)), (2, .timer 0 .calm),
    (1, .thread 0 2 .calm), (1, .wake 0 1), (4, .thread 0 3 .calm),
    (1, .recvReplicate 1 ⟨0, 1, 0, 3, 1, 1, 0, 0, none, ['X']⟩), (8, .thread 1 3 .calm),
    (1, .thread 0 3 (.answer true 3)), (2, .thread 0 3 .calm), (1, .beat 0 2),
    (2, .thread 0 4 .calm), (1, .recvReplicate 2 ⟨0, 2, 1, 3, 0, 0, 0, 0, none, []⟩),
    (4, .thread 2 1 .calm), (1, .timeout 2 [0, 1, 2]), (6, .timer 2 .calm),
    (1, .recvVote 1 ⟨2, 1, 4, 1, 2⟩), (8, .thread 1 4 .calm), (1, .timer 2 (.answer true 3)),
    (2, .timer 2 .calm)]

/-- Without the condition, a later leader can lack a committed record. -/
theorem later_leader_without_record :
    ¬ ∀ σ, Reach Cluster.step (fun _ e => e.inZone [0, 1, 2] = true)
        (Cluster.init [0, 1, 2] (fun _ => ['0'])) σ →
      ∀ s s' T i record, Obs.commit s T i record ∈ σ.obs →
        (σ.node s').server.raft.state = .leader → T < (σ.node s').server.raft.term →
        (σ.node s').server.logdb.entry i = record := by
  intro h
  have hrun : ((runEvents Cluster.step (Cluster.init [0, 1, 2] (fun _ => ['0']))
      (repeated oldTermRun)).map (fun σ => (σ.obs, (σ.node 2).server.logdb.entry 1,
        (σ.node 2).server.raft.state, (σ.node 2).server.raft.term))) =
      some ([.commit 0 3 1 (some (1, ['X']))], some (2, ['Y']), .leader, 4) := by decide
  obtain ⟨σ, hσ, heq⟩ := Option.map_eq_some_iff.mp hrun
  simp only [Prod.mk.injEq] at heq
  obtain ⟨hobs, hentry, hl, hterm⟩ := heq
  have hzone : ∀ e ∈ repeated oldTermRun, e.inZone [0, 1, 2] = true := by decide
  have hcommit : Obs.commit 0 3 1 (some (1, ['X'])) ∈ σ.obs := by
    rw [hobs]
    exact List.mem_singleton_self _
  have hlost := h σ (reach_of_runEvents _ hzone hσ) 0 2 3 1 _ hcommit hl (by rw [hterm]; decide)
  rw [hentry] at hlost
  exact absurd hlost (by decide)
