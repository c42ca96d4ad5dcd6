/-
# Election safety

No two servers are ever leader in the same term, in every run in which the code stays clear
of three places where it can go wrong (`ElectionOk`):

* `ZoneAPI::vote` reads the term, steps down and casts the vote in three critical sections,
  and `update_votedfor` does not look at the term again.  A vote that is granted must be cast
  while the server is still in the term it was asked for.
* A restarted server must find the term and the vote it had in the row `RAFT_STATE`.
* An election is held among the servers of a configuration, and any two majorities of
  configurations meet (a fixed zone is the case of one configuration).

The invariant `election` remembers the ballots: a server that wins has the ballots of a
majority, and a ballot for another server is never taken back.
-/
import OpenNebula.ClusterInvariant
import OpenNebula.Transition

open ReplicatedLog Transition

/-! ## Majorities -/

/-- More than half of the servers of a configuration. -/
def Majority (Configs : List ServerId → Prop) (Q : Finset ServerId) : Prop :=
  ∃ Z, Configs Z ∧ Q ⊆ Z.toFinset ∧ Z.length < 2 * Q.card

/-- The configurations that the zone may go through: without repetitions, and such that any
two majorities meet. -/
structure ZoneConfigs (Configs : List ServerId → Prop) : Prop where
  nodup : ∀ Z, Configs Z → Z.Nodup
  meet : ∀ Q Q', Majority Configs Q → Majority Configs Q' → ∃ f ∈ Q, f ∈ Q'

/-- A zone with a fixed set of servers. -/
theorem zoneConfigs_fixed {zone : List ServerId} (h : zone.Nodup) : ZoneConfigs (· = zone) where
  nodup := by
    rintro Z rfl
    exact h
  meet := by
    rintro Q Q' ⟨Z, rfl, hQ, hlt⟩ ⟨Z', rfl, hQ', hlt'⟩
    by_contra hnone
    have hdisj : Disjoint Q Q' := by
      rw [Finset.disjoint_left]
      intro f hf hf'
      exact hnone ⟨f, hf, hf'⟩
    have hcard : (Q ∪ Q').card ≤ Z'.toFinset.card := Finset.card_le_card (Finset.union_subset hQ hQ')
    rw [Finset.card_union_of_disjoint hdisj] at hcard
    have := Z'.toFinset_card_le
    omega

/-- The votes of half of the other servers and one's own are a majority. -/
theorem majority_insert {Configs : List ServerId → Prop} {Z granted : List ServerId}
    {s : ServerId} (hZ : Configs Z) (hs : s ∈ Z) (hnodup : granted.Nodup)
    (hothers : ∀ f ∈ granted, f ∈ Z ∧ f ≠ s) (hsize : Z.length / 2 ≤ granted.length) :
    Majority Configs (insert s granted.toFinset) := by
  refine ⟨Z, hZ, ?_, ?_⟩
  · intro f hf
    rw [Finset.mem_insert, List.mem_toFinset] at hf
    rw [List.mem_toFinset]
    rcases hf with rfl | hf
    · exact hs
    · exact (hothers f hf).1
  · have hnot : s ∉ granted.toFinset := by
      rw [List.mem_toFinset]
      exact fun hmem => (hothers s hmem).2 rfl
    rw [Finset.card_insert_of_notMem hnot, List.toFinset_card_of_nodup hnodup]
    omega

/-! ## The condition on the steps -/

/-- A vote that is granted is cast in the term it was asked for. -/
def VoteInTerm (v : Server) : Thread → Prop
  | .voteCast p _ li lt =>
    ¬ (p.logTerm < lt ∨ (lt = p.logTerm ∧ p.logIndex < li)) →
      v.raft.votedfor = none ∨ v.raft.votedfor = some p.candidateId →
      v.raft.term = p.candidateTerm
  | _ => True

instance (v : Server) (t : Thread) : Decidable (VoteInTerm v t) := by
  unfold VoteInTerm
  split <;> infer_instance

/-- Elections are held among the servers of a configuration, and a server that restarts finds
its term and its vote in the database. -/
def ElectionEvent (Configs : List ServerId → Prop) (σ : Cluster) : Event → Prop
  | .timeout s servers => Configs servers ∧ s ∈ servers
  | .restart s _ _ _ => (σ.node s).server.row.attributes =
      ⟨(σ.node s).server.raft.term, (σ.node s).server.raft.votedfor⟩
  | _ => True

instance (Configs : List ServerId → Prop) [DecidablePred Configs] (σ : Cluster) (e : Event) :
    Decidable (ElectionEvent Configs σ e) := by
  unfold ElectionEvent
  split <;> infer_instance

/-- The steps that election safety needs. -/
structure ElectionOk (Configs : List ServerId → Prop) (σ : Cluster) (e : Event) : Prop where
  event : ElectionEvent Configs σ e
  vote : σ.Running e (fun s t _ => VoteInTerm (σ.node s).server t)

instance (Configs : List ServerId → Prop) [DecidablePred Configs] (σ : Cluster) (e : Event) :
    Decidable (ElectionOk Configs σ e) :=
  decidable_of_iff _ ⟨fun h => ⟨h.1, h.2⟩, fun h => And.intro h.event h.vote⟩

/-! ## The invariant -/

/-- What holds of a campaign in term `t` as long as the server is a candidate. -/
structure Candidacy (w : World) (s : ServerId) (v : Server) (servers : List ServerId) (t : ℕ)
    (granted : List ServerId) : Prop where
  term : v.raft.term = t
  self : v.raft.votedfor = some s
  list : v.raft.servers = servers
  size : v.raft.numServers = servers.length
  running : w.ledger.won t ≠ some s
  votes : ∀ f ∈ granted, w.ballot f t = some s

/-- A campaign of the timer thread: the servers still to be asked and those that granted
their vote. -/
structure Campaign (Configs : List ServerId → Prop) (w : World) (s : ServerId) (v : Server)
    (servers : List ServerId) (t : ℕ) (todo granted : List ServerId) : Prop where
  config : Configs servers
  mem : s ∈ servers
  nodup : (todo ++ granted).Nodup
  others : ∀ f ∈ todo ++ granted, f ∈ servers ∧ f ≠ s
  candidacy : v.raft.state = .candidate → Candidacy w s v servers t granted

/-- What holds at each place of the timer thread. -/
def electionTimer (Configs : List ServerId → Prop) (w : World) (s : ServerId) (v : Server) :
    Thread → Prop
  | .done => True
  | .updateRaftState _ k => electionTimer Configs w s v k
  | .followerSetup _ k => k = .done
  | .followerLock _ _ k => k = .done
  | .voteInit servers => Configs servers ∧ s ∈ servers
  | .voteIndex servers t n => n = servers.length / 2 ∧ Campaign Configs w s v servers t [] []
  | .voteRpc servers t n _ _ todo granted =>
    n = servers.length / 2 ∧ Campaign Configs w s v servers t todo granted
  | .voteWait servers t n _ _ todo granted p =>
    n = servers.length / 2 ∧ Campaign Configs w s v servers t (p.dst :: todo) granted ∧
      p.candidateId = s ∧ (v.raft.state = .candidate → p.candidateTerm = t)
  | .voteLost servers t => Campaign Configs w s v servers t [] []
  | .leaderSetup t granted => ∃ servers, servers.length / 2 ≤ granted.length ∧
      Campaign Configs w s v servers t [] granted
  | .leaderLock t granted _ _ => ∃ servers, servers.length / 2 ≤ granted.length ∧
      Campaign Configs w s v servers t [] granted
  | _ => False

/-- What holds of a message: a vote that was granted is in the ballots. -/
def electionMsg (w : World) : Msg → Prop
  | .vote p => p.candidateId ≠ p.dst
  | .voteReply p true _ =>
    p.candidateId ≠ p.dst ∧ w.ballot p.dst p.candidateTerm = some p.candidateId
  | _ => True

/-- What holds at each place of the other threads; none of them holds elections. -/
def electionThread (w : World) (s : ServerId) : Thread → Prop
  | .updateRaftState _ k => electionThread w s k
  | .followerSetup _ k => electionThread w s k
  | .followerLock _ _ k => electionThread w s k
  | .reply m => electionMsg w m
  | .voteTerm p | .voteLog p _ | .voteCast p _ _ _ => p.candidateId ≠ p.dst ∧ p.dst = s
  | .voteInit _ | .voteIndex _ _ _ | .voteRpc _ _ _ _ _ _ _ | .voteWait _ _ _ _ _ _ _ _
  | .voteLost _ _ | .leaderSetup _ _ | .leaderLock _ _ _ _ => False
  | _ => True

/-- What holds of the Raft state of a server. -/
structure ElectionServer (w : World) (s : ServerId) (v : Server) : Prop where
  term : w.ledger.term s = v.raft.term
  vote : w.ballot s v.raft.term = v.raft.votedfor
  fresh : ∀ T, v.raft.term < T → w.ballot s T = none
  leads : v.raft.state = .leader → w.ledger.won v.raft.term = some s

/-- A winner had the ballots of a majority. -/
def ElectionWorld (Configs : List ServerId → Prop) (w : World) : Prop :=
  ∀ T c, w.ledger.won T = some c → T ≤ w.ledger.term c ∧
    ∃ Q, Majority Configs Q ∧ ∀ f ∈ Q, w.ballot f T = some c

/-- The invariant of elections. -/
def election (Configs : List ServerId → Prop) : Assertions where
  world := ElectionWorld Configs
  server := ElectionServer
  timer := electionTimer Configs
  thread := fun w s _ t => electionThread w s t
  msg := electionMsg
  obs := fun _ _ => True

/-! ## Stability -/

/-- How the ballots, the terms and the winners change in a step of the server `s`. -/
structure Follows (w w' : World) (s : ServerId) : Prop where
  ballot_ne : ∀ f, f ≠ s → w'.ballot f = w.ballot f
  /-- A vote for another server is not taken back. -/
  ballot_vote : ∀ T c, c ≠ s → w.ballot s T = some c → w'.ballot s T = some c
  term_ne : ∀ f, f ≠ s → w'.ledger.term f = w.ledger.term f
  won_le : ∀ T c, w.ledger.won T = some c → w'.ledger.won T = some c
  won_new : ∀ T c, w'.ledger.won T = some c → w.ledger.won T = some c ∨ c = s

theorem Follows.refl (w : World) (s : ServerId) : Follows w w s :=
  ⟨fun _ _ => rfl, fun _ _ _ h => h, fun _ _ => rfl, fun _ _ h => h, fun _ _ h => Or.inl h⟩

theorem Follows.ballot {w w' : World} {s : ServerId} (h : Follows w w' s) {f c : ServerId} {T : ℕ}
    (hne : f ≠ c) (hb : w.ballot f T = some c) : w'.ballot f T = some c := by
  by_cases hf : f = s
  · subst hf
    exact h.ballot_vote T c (Ne.symm hne) hb
  · rw [h.ballot_ne f hf]
    exact hb

theorem electionMsg_mono {w w' : World} {s : ServerId} (h : Follows w w' s) {m : Msg}
    (hm : electionMsg w m) : electionMsg w' m := by
  cases m with
  | voteReply p success fterm =>
    cases success with
    | true => exact ⟨hm.1, h.ballot (Ne.symm hm.1) hm.2⟩
    | false => trivial
  | vote p => exact hm
  | replicate p => trivial
  | replicateReply p success fterm => trivial

theorem electionThread_mono {w w' : World} {s f : ServerId} (h : Follows w w' s) (t : Thread)
    (ht : electionThread w f t) : electionThread w' f t := by
  induction t with
  | updateRaftState x k ih => exact ih ht
  | followerSetup t k ih => exact ih ht
  | followerLock t a k ih => exact ih ht
  | reply m => exact electionMsg_mono h ht
  | _ => exact ht

/-- The candidate has its term, its own vote and its list of servers as before. -/
def SameCampaign (s : ServerId) (v v' : Server) : Prop :=
  v'.raft.state = .candidate → v.raft.state = .candidate ∧
    v'.raft.term = v.raft.term ∧ v'.raft.servers = v.raft.servers ∧
    v'.raft.numServers = v.raft.numServers ∧ (v.raft.votedfor = some s → v'.raft.votedfor = some s)

/-- A campaign is not disturbed by steps that leave the candidate its term, its own vote and
the votes of the others. -/
theorem Campaign.mono {Configs : List ServerId → Prop} {w w' : World} {s : ServerId}
    {v v' : Server} {servers todo granted : List ServerId} {t : ℕ}
    (h : Campaign Configs w s v servers t todo granted)
    (hstate : SameCampaign s v v')
    (hwon : ∀ T, w'.ledger.won T = some s → w.ledger.won T = some s)
    (hballot : ∀ f T, f ≠ s → w.ballot f T = some s → w'.ballot f T = some s) :
    Campaign Configs w' s v' servers t todo granted := by
  refine { h with candidacy := ?_ }
  intro hc
  obtain ⟨hs, ht, hl, hn, hv⟩ := hstate hc
  have hcand := h.candidacy hs
  refine ⟨ht.trans hcand.term, hv hcand.self, hl.trans hcand.list, hn.trans hcand.size, ?_, ?_⟩
  · exact fun hw => hcand.running (hwon t hw)
  · intro f hf
    exact hballot f t (h.others f (List.mem_append_right _ hf)).2 (hcand.votes f hf)

theorem electionTimer_mono {Configs : List ServerId → Prop} {w w' : World} {s : ServerId}
    {v v' : Server}
    (hstate : SameCampaign s v v')
    (hwon : ∀ T, w'.ledger.won T = some s → w.ledger.won T = some s)
    (hballot : ∀ f T, f ≠ s → w.ballot f T = some s → w'.ballot f T = some s) (t : Thread)
    (ht : electionTimer Configs w s v t) : electionTimer Configs w' s v' t := by
  induction t with
  | updateRaftState x k ih => exact ih ht
  | voteIndex servers t n => exact ⟨ht.1, ht.2.mono hstate hwon hballot⟩
  | voteRpc servers t n li lt todo granted => exact ⟨ht.1, ht.2.mono hstate hwon hballot⟩
  | voteWait servers t n li lt todo granted p =>
    obtain ⟨h1, h2, h3, h4⟩ := ht
    exact ⟨h1, h2.mono hstate hwon hballot, h3, fun hc => h4 (hstate hc).1⟩
  | voteLost servers t => exact Campaign.mono ht hstate hwon hballot
  | leaderSetup t granted =>
    obtain ⟨servers, h1, h2⟩ := ht
    exact ⟨servers, h1, h2.mono hstate hwon hballot⟩
  | leaderLock t granted applied index =>
    obtain ⟨servers, h1, h2⟩ := ht
    exact ⟨servers, h1, h2.mono hstate hwon hballot⟩
  | _ => exact ht

/-- The assertions about the rest of the zone are stable. -/
theorem election_frame {Configs : List ServerId → Prop} {w w' : World} {s : ServerId}
    (h : Follows w w' s) (v v' : Server) : (election Configs).Frame w w' s v v' where
  server := by
    intro s' u hne hu
    refine ⟨?_, ?_, ?_, ?_⟩
    · rw [h.term_ne s' hne]
      exact hu.term
    · rw [h.ballot_ne s' hne]
      exact hu.vote
    · rw [h.ballot_ne s' hne]
      exact hu.fresh
    · exact fun hl => h.won_le _ _ (hu.leads hl)
  timer := by
    intro s' u t hne ht
    refine electionTimer_mono (fun hc => ⟨hc, rfl, rfl, rfl, fun hv => hv⟩) ?_ ?_ t ht
    · intro T hT
      exact (h.won_new T s' hT).resolve_right hne
    · exact fun f T hf hb => h.ballot hf hb
  thread := fun _ _ t _ ht => electionThread_mono h t ht
  same := fun t ht => electionThread_mono h t ht
  msg := fun _ hm => electionMsg_mono h hm
  obs := fun _ _ => trivial

/-! ## The world after a step -/

theorem World.next_ballot {w : World} {s : ServerId} {v : Server} {t : Thread} {o : Outcome}
    (T : ℕ) : (w.next s v t o).ballot s T =
      Function.update (w.ballot s) o.server.raft.term o.server.raft.votedfor T := by
  simp [World.next]

theorem World.next_won {w : World} {s : ServerId} {v : Server} {t : Thread} {o : Outcome}
    (h : ¬ World.Elected v o) : (w.next s v t o).ledger.won = w.ledger.won := by
  unfold World.next World.nextLedger
  split
  · rw [if_neg h]
  · rfl
  · split <;> rfl

theorem World.next_term {w : World} {s : ServerId} {v : Server} {net : List Msg} {env : Env}
    {t : Thread} {o : Outcome} (hterm : w.ledger.term s = v.raft.term)
    (hstep : ThreadStep s v net env t o) :
    (w.next s v t o).ledger.term = Function.update w.ledger.term s o.server.raft.term := by
  have hsame : o.server.raft.term = v.raft.term →
      w.ledger.term = Function.update w.ledger.term s o.server.raft.term := by
    intro heq
    rw [heq, ← hterm, Function.update_eq_self]
  unfold World.next World.nextLedger
  split
  · have heq : o.server.raft.term = v.raft.term := by
      cases hstep with
      | goto h => cases h
      | finish pending reconciling _ => rfl
      | leaderLock t g a i r o hr =>
        unfold RaftManager.leader at hr
        split at hr
        · exact absurd hr (by simp)
        · rw [Option.some.injEq, Prod.mk.injEq] at hr
          rw [← hr.1]
    split
    · exact hsame heq
    · exact hsame heq
  · have heq : o.server.raft.term = v.raft.term := by
      cases hstep with
      | goto h => cases h
      | finish pending reconciling _ => rfl
      | writeInsert sql fed t db i hi => rfl
    exact hsame heq
  · split <;> rfl

/-! ## Steps of the other threads -/

/-- A step of a thread that holds no election. -/
structure Quiet (s : ServerId) (v v' : Server) : Prop where
  term_le : v.raft.term ≤ v'.raft.term
  vote : v'.raft.term = v.raft.term → v.raft.votedfor ≠ none →
    v'.raft.votedfor = v.raft.votedfor
  leader : v'.raft.state = .leader → v.raft.state = .leader ∧ v'.raft.term = v.raft.term
  candidate : v'.raft.state = .candidate → v.raft.state = .candidate ∧
    v'.raft.term = v.raft.term ∧ v'.raft.servers = v.raft.servers ∧
    v'.raft.numServers = v.raft.numServers

theorem Quiet.of_sameVote {s : ServerId} {v v' : Server}
    (h : RaftManager.SameVote v.raft v'.raft) : Quiet s v v' where
  term_le := h.term.ge
  vote := fun _ _ => h.votedfor
  leader := fun hl => ⟨h.state ▸ hl, h.term⟩
  candidate := fun hc => ⟨h.state ▸ hc, h.term, h.servers, h.numServers⟩

theorem Quiet.of_eq {s : ServerId} {v v' : Server} (h : v'.raft = v.raft) : Quiet s v v' :=
  .of_sameVote (h ▸ ⟨rfl, rfl, rfl, rfl, rfl, rfl, rfl⟩)

theorem follower_state (r : RaftManager) (t a : ℕ) : (r.follower t a).1.state = .follower := by
  unfold RaftManager.follower
  dsimp only
  split <;> rfl

theorem follower_term (r : RaftManager) (t a : ℕ) : (r.follower t a).1.term = max r.term t := by
  unfold RaftManager.follower
  dsimp only
  split
  · show t = _
    omega
  · show r.term = _
    omega

theorem quiet_follower (s : ServerId) (v : Server) (t a : ℕ) :
    Quiet s v { v with raft := (v.raft.follower t a).1 } := by
  have hstate := follower_state v.raft t a
  have hterm := follower_term v.raft t a
  constructor
  · show v.raft.term ≤ (v.raft.follower t a).1.term
    rw [hterm]
    exact le_max_left _ _
  · intro heq _
    have hle : ¬ v.raft.term < t := by
      intro hlt
      have heq' : (v.raft.follower t a).1.term = v.raft.term := heq
      rw [hterm] at heq'
      omega
    show (v.raft.follower t a).1.votedfor = _
    unfold RaftManager.follower
    dsimp only
    rw [if_neg hle]
  · intro hl
    have hl' : (v.raft.follower t a).1.state = .leader := hl
    rw [hstate] at hl'
    exact absurd hl' (by simp)
  · intro hc
    have hc' : (v.raft.follower t a).1.state = .candidate := hc
    rw [hstate] at hc'
    exact absurd hc' (by simp)

/-- What a granted vote changes. -/
theorem updateVotedfor_some {r r' : RaftManager} {c : ServerId} {x : Snapshot}
    (h : r.updateVotedfor c = some (r', x)) :
    (r.votedfor = none ∨ r.votedfor = some c) ∧
      r' = { r with votedfor := some c }.replaceState { r.raftState with votedfor := some c } ∧
      x = r'.snapshot := by
  unfold RaftManager.updateVotedfor at h
  split at h
  · exact absurd h (by simp)
  · rename_i hv
    rw [Option.some.injEq, Prod.mk.injEq] at h
    refine ⟨?_, h.1.symm, ?_⟩
    · by_cases h0 : r.votedfor = none
      · exact Or.inl h0
      · exact Or.inr (by_contra fun h1 => hv ⟨h0, h1⟩)
    · rw [← h.2, h.1]

theorem quiet_voteCast {s : ServerId} {v : Server} {c : ServerId} {r : RaftManager} {x : Snapshot}
    (h : v.raft.updateVotedfor c = some (r, x)) : Quiet s v { v with raft := r } := by
  obtain ⟨hold, rfl, -⟩ := updateVotedfor_some h
  refine ⟨le_rfl, ?_, fun hl => ⟨hl, rfl⟩, fun hc => ⟨hc, rfl, rfl, rfl⟩⟩
  intro _ hv
  exact (hold.resolve_left hv).symm

theorem quiet_addServer (s : ServerId) (v : Server) (f : ServerId) (i : ℕ) :
    Quiet s v { v with raft := v.raft.addServer f i } := by
  unfold RaftManager.addServer
  split
  · exact .of_eq rfl
  · rename_i hl
    refine ⟨le_rfl, fun _ _ => rfl, fun h => ⟨h, rfl⟩, ?_⟩
    intro hc
    have hc' : v.raft.state = .candidate := hc
    rw [not_not.mp hl] at hc'
    exact absurd hc' (by simp)

section Threads

variable {w : World} {s : ServerId} {v : Server} {net : List Msg} {env : Env} {t t' : Thread}
  {o : Outcome}

theorem electionThread_dispatch (w : World) (s : ServerId) (p : ReplicateParams) (c : ℕ) :
    electionThread w s (Thread.replDispatch p c) := by
  unfold Thread.replDispatch
  split
  · trivial
  · split
    · trivial
    · split <;> trivial

theorem electionThread_goto (ht : electionThread w s t) (h : Goto s v net env t t') :
    electionThread w s t' := by
  cases h with
  | voteTerm => exact ht
  | voteNewTerm => exact ht
  | voteSameTerm => exact ht
  | replCandidate _ => exact electionThread_dispatch w s _ _
  | replNotCandidate _ => exact electionThread_dispatch w s _ _
  | _ => first | exact False.elim ht | trivial

/-- The steps of the threads that hold no election. -/
theorem quiet_of_electionThread (ht : electionThread w s t) (h : ThreadStep s v net env t o) :
    Quiet s v o.server := by
  cases h with
  | followerNewTerm t a k _ => exact quiet_follower s v t a
  | followerSameTerm t a k _ => exact quiet_follower s v t a
  | voteCast p t li lt r x _ hr => exact quiet_voteCast hr
  | replicaSuccessLock f e i p => exact .of_sameVote (v.raft.sameVote_replicateSuccess f i)
  | replicaFailure f e p => exact .of_sameVote (v.raft.sameVote_replicateFailure f)
  | register i back => exact .of_sameVote (v.raft.sameVote_replicateLog v.tickets i)
  | resetIndexLock f i => exact .of_sameVote (v.raft.sameVote_resetIndex f i)
  | addServerLock f i => exact quiet_addServer s v f i
  | requestVote servers r x hr => exact False.elim ht
  | voteSend servers t n li lt f rest granted => exact False.elim ht
  | voteLost servers t r x hr => exact False.elim ht
  | leaderSetup t granted => exact False.elim ht
  | leaderLock t granted applied index r i hr => exact False.elim ht
  | _ => exact .of_sameVote ⟨rfl, rfl, rfl, rfl, rfl, rfl, rfl⟩

/-- The world follows a step of a server that does not take back a vote for another one. -/
theorem ElectionServer.follows (hs : ElectionServer w s v) (h : ThreadStep s v net env t o)
    (hne : ¬ World.Elected v o) (hle : v.raft.term ≤ o.server.raft.term)
    (hvote : ∀ c, c ≠ s → w.ballot s o.server.raft.term = some c →
      o.server.raft.votedfor = some c)
    (hlead : o.server.raft.state = .leader → w.ledger.won o.server.raft.term = some s) :
    Follows w (w.next s v t o) s ∧ ElectionServer (w.next s v t o) s o.server := by
  have hwon := World.next_won (w := w) (s := s) (t := t) hne
  have hterm := World.next_term hs.term h
  refine ⟨⟨?_, ?_, ?_, ?_, ?_⟩, ⟨?_, ?_, ?_, ?_⟩⟩
  · intro f hf
    simp [World.next, hf]
  · intro T c hc hb
    rw [World.next_ballot]
    by_cases hT : T = o.server.raft.term
    · rw [hT, Function.update_self]
      exact hvote c hc (hT ▸ hb)
    · rw [Function.update_of_ne hT]
      exact hb
  · intro f hf
    rw [hterm, Function.update_of_ne hf]
  · rw [hwon]
    exact fun T c h => h
  · rw [hwon]
    exact fun T c h => Or.inl h
  · rw [hterm, Function.update_self]
  · rw [World.next_ballot, Function.update_self]
  · intro T hT
    rw [World.next_ballot, Function.update_of_ne (by omega)]
    exact hs.fresh T (by omega)
  · rw [hwon]
    exact hlead

theorem Quiet.not_elected (hq : Quiet s v o.server) : ¬ World.Elected v o := by
  rintro ⟨hc, hl⟩
  rw [(hq.leader hl).1] at hc
  exact absurd hc (by simp)

/-- A step that holds no election takes back no vote, not even the own one. -/
theorem Quiet.follows (hq : Quiet s v o.server) (hs : ElectionServer w s v)
    (h : ThreadStep s v net env t o) :
    Follows w (w.next s v t o) s ∧ ElectionServer (w.next s v t o) s o.server ∧
      ∀ T c, w.ballot s T = some c → (w.next s v t o).ballot s T = some c := by
  have hvote : ∀ c, w.ballot s o.server.raft.term = some c → o.server.raft.votedfor = some c := by
    intro c hb
    have hterm : o.server.raft.term = v.raft.term := by
      refine le_antisymm ?_ hq.term_le
      by_contra hlt
      rw [hs.fresh _ (not_le.mp hlt)] at hb
      exact absurd hb (by simp)
    rw [hterm, hs.vote] at hb
    rw [hq.vote hterm (by simp [hb])]
    exact hb
  obtain ⟨hf, hs'⟩ := hs.follows h hq.not_elected hq.term_le (fun c _ => hvote c) (by
    intro hl
    obtain ⟨hl', heq⟩ := hq.leader hl
    rw [heq]
    exact hs.leads hl')
  refine ⟨hf, hs', ?_⟩
  intro T c hb
  rw [World.next_ballot]
  by_cases hT : T = o.server.raft.term
  · rw [hT, Function.update_self]
    exact hvote c (hT ▸ hb)
  · rw [Function.update_of_ne hT]
    exact hb

/-- The winners keep the ballots of their majorities. -/
theorem ElectionWorld.mono {Configs : List ServerId → Prop} {w w' : World}
    (h : ElectionWorld Configs w) (hf : Follows w w' s) (hle : w.ledger.term s ≤ w'.ledger.term s)
    (hwon : w'.ledger.won = w.ledger.won)
    (hown : ∀ T, w.ledger.won T = some s → w.ballot s T = some s → w'.ballot s T = some s) :
    ElectionWorld Configs w' := by
  intro T c hT
  rw [hwon] at hT
  obtain ⟨hterm, Q, hQ, hb⟩ := h T c hT
  refine ⟨?_, Q, hQ, ?_⟩
  · by_cases hc : c = s
    · subst hc
      omega
    · rw [hf.term_ne c hc]
      exact hterm
  · intro f hfQ
    by_cases hfc : f = c
    · subst hfc
      by_cases hfs : f = s
      · subst hfs
        exact hown T hT (hb f hfQ)
      · rw [hf.ballot_ne f hfs]
        exact hb f hfQ
    · exact hf.ballot hfc (hb f hfQ)

/-- The place a thread goes to keeps its assertion, and what is sent is as asserted. -/
theorem electionThread_step {w' : World} (hf : Follows w w' s)
    (hs' : ElectionServer w' s o.server) (ht : electionThread w s t) (hok : VoteInTerm v t)
    (h : ThreadStep s v net env t o) :
    electionThread w' s o.thread ∧ (∀ m ∈ o.sent, electionMsg w' m) ∧ o.started = [] := by
  cases h with
  | goto hg => exact ⟨electionThread_mono hf _ (electionThread_goto ht hg), by simp [Outcome.mk'], rfl⟩
  | reply m =>
    refine ⟨trivial, ?_, rfl⟩
    intro m' hm'
    rw [Outcome.send, List.mem_singleton] at hm'
    rw [hm']
    exact electionMsg_mono hf ht
  | updateRaftState x k => exact ⟨electionThread_mono hf k ht, by simp [Outcome.mk'], rfl⟩
  | followerSetup t k => exact ⟨electionThread_mono hf k ht, by simp [Outcome.mk'], rfl⟩
  | followerNewTerm t a k _ => exact ⟨electionThread_mono hf k ht, by simp [Outcome.mk'], rfl⟩
  | followerSameTerm t a k _ => exact ⟨electionThread_mono hf k ht, by simp [Outcome.mk'], rfl⟩
  | voteCast p t li lt r x hlog hr =>
    obtain ⟨hold, rfl, -⟩ := updateVotedfor_some hr
    obtain ⟨hne, hdst⟩ := ht
    have hterm : v.raft.term = p.candidateTerm := hok hlog hold
    refine ⟨⟨hne, ?_⟩, by simp [Outcome.mk'], rfl⟩
    rw [hdst, ← hterm]
    exact hs'.vote
  | replicaSend f e t lr _ =>
    refine ⟨trivial, ?_, rfl⟩
    intro m hm
    rw [Outcome.send, List.mem_singleton] at hm
    rw [hm]
    trivial
  | beatSend f t =>
    refine ⟨trivial, ?_, rfl⟩
    intro m hm
    rw [Outcome.send, List.mem_singleton] at hm
    rw [hm]
    trivial
  | applyRecords i back =>
    refine ⟨?_, by simp, rfl⟩
    show electionThread w' s (if back then .reconciled else .done)
    split <;> trivial
  | requestVote servers r x hr => exact False.elim ht
  | voteSend servers t n li lt f rest granted => exact False.elim ht
  | voteLost servers t r x hr => exact False.elim ht
  | leaderSetup t granted => exact False.elim ht
  | leaderLock t granted applied index r i hr => exact False.elim ht
  | _ => exact ⟨trivial, by simp [Outcome.mk'], rfl⟩

end Threads

/-! ## Steps of the timer thread -/

section Timer

variable {Configs : List ServerId → Prop} {w : World} {s : ServerId} {v : Server}
  {net : List Msg} {env : Env} {t t' : Thread} {o : Outcome}

theorem Campaign.dropTodo {servers todo granted : List ServerId} {t : ℕ}
    (h : Campaign Configs w s v servers t todo granted) :
    Campaign Configs w s v servers t [] granted where
  config := h.config
  mem := h.mem
  nodup := (List.nodup_append.mp h.nodup).2.1
  others := fun f hf => h.others f (List.mem_append_right _ hf)
  candidacy := h.candidacy

theorem Campaign.dropGranted {servers todo granted : List ServerId} {t : ℕ}
    (h : Campaign Configs w s v servers t todo granted) :
    Campaign Configs w s v servers t todo [] where
  config := h.config
  mem := h.mem
  nodup := by simpa using (List.nodup_append.mp h.nodup).1
  others := fun f hf => h.others f (List.mem_append_left _ (by simpa using hf))
  candidacy := fun hc => { h.candidacy hc with votes := by simp }

/-- The server that was asked gave no vote. -/
theorem Campaign.skip {servers todo granted : List ServerId} {t : ℕ} {f : ServerId}
    (h : Campaign Configs w s v servers t (f :: todo) granted) :
    Campaign Configs w s v servers t todo granted where
  config := h.config
  mem := h.mem
  nodup := (List.nodup_cons.mp h.nodup).2
  others := fun g hg => h.others g (List.mem_cons_of_mem f hg)
  candidacy := h.candidacy

/-- The server that was asked granted its vote. -/
theorem Campaign.grant {servers todo granted : List ServerId} {t : ℕ} {f : ServerId}
    (h : Campaign Configs w s v servers t (f :: todo) granted)
    (hvote : v.raft.state = .candidate → w.ballot f t = some s) :
    Campaign Configs w s v servers t todo (f :: granted) where
  config := h.config
  mem := h.mem
  nodup := List.perm_middle.symm.nodup h.nodup
  others := fun g hg => h.others g (List.perm_middle.mem_iff.mp hg)
  candidacy := by
    intro hc
    refine { h.candidacy hc with votes := ?_ }
    intro g hg
    rcases List.mem_cons.mp hg with rfl | hg
    · exact hvote hc
    · exact (h.candidacy hc).votes g hg

theorem electionTimer_voteNext {servers todo granted : List ServerId} {t n li lt : ℕ}
    (hn : n = servers.length / 2) (h : Campaign Configs w s v servers t todo granted) :
    electionTimer Configs w s v (Thread.voteNext servers t n li lt todo granted) := by
  unfold Thread.voteNext
  split
  · rename_i hle
    exact ⟨servers, hn ▸ hle, h.dropTodo⟩
  · split
    · exact h.dropTodo.dropGranted
    · exact ⟨hn, h⟩

theorem electionTimer_goto (hconf : ZoneConfigs Configs) (hnet : ∀ m ∈ net, electionMsg w m)
    (ht : electionTimer Configs w s v t) (h : Goto s v net env t t') :
    electionTimer Configs w s v t' := by
  cases h with
  | voteIndex =>
    obtain ⟨hn, hc⟩ := ht
    refine ⟨hn, { hc with nodup := ?_, others := ?_ }⟩
    · rw [List.append_nil]
      exact (hconf.nodup _ hc.config).filter _
    · intro f hf
      rw [List.append_nil, List.mem_filter, decide_eq_true_eq] at hf
      exact hf
  | voteAlone => exact electionTimer_voteNext ht.1 ht.2
  | voteSkip => exact electionTimer_voteNext ht.1 ht.2.skip
  | voteDenied => exact electionTimer_voteNext ht.1 ht.2.1.skip
  | voteGranted hmem =>
    obtain ⟨hn, hc, hid, hterm⟩ := ht
    obtain ⟨-, hb⟩ := hnet _ hmem
    refine electionTimer_voteNext hn (hc.grant ?_)
    intro hcand
    rw [← hterm hcand, ← hid]
    exact hb
  | voteStepDown => rfl
  | _ => exact False.elim ht

/-- The steps of the timer thread that change neither the term nor the vote nor the state. -/
theorem electionTimer_quiet (hq : Quiet s v o.server) (hs : ElectionServer w s v)
    (h : ThreadStep s v net env t o) (ht : electionTimer Configs w s v t') :
    electionTimer Configs (w.next s v t o) s o.server t' := by
  obtain ⟨hf, -, -⟩ := hq.follows hs h
  refine electionTimer_mono ?_ ?_ ?_ t' ht
  · intro hc
    obtain ⟨h1, h2, h3, h4⟩ := hq.candidate hc
    refine ⟨h1, h2, h3, h4, fun hv => ?_⟩
    rw [hq.vote h2 (by simp [hv])]
    exact hv
  · rw [World.next_won hq.not_elected]
    exact fun T hT => hT
  · intro f T hfs hb
    rw [hf.ballot_ne f hfs]
    exact hb

/-- What `request_vote` changes when it starts a campaign. -/
theorem requestVote_some {r r' : RaftManager} {servers : List ServerId} {x : Snapshot}
    (h : r.requestVote s servers = some (r', x)) :
    r.state = .candidate ∧ x = r'.snapshot ∧
      r' = { r with servers := servers, numServers := servers.length, term := r.term + 1,
                    votedfor := some s }.replaceState ⟨r.term + 1, some s⟩ := by
  unfold RaftManager.requestVote at h
  split at h
  · exact absurd h (by simp)
  · rename_i hc
    rw [Option.some.injEq, Prod.mk.injEq] at h
    exact ⟨not_not.mp hc, by rw [← h.2, h.1], h.1.symm⟩

theorem resetVotedfor_some {r r' : RaftManager} {x : Snapshot}
    (h : r.resetVotedfor = some (r', x)) :
    r.state = .candidate ∧ x = r'.snapshot ∧
      r' = { r with votedfor := none }.replaceState { r.raftState with votedfor := none } := by
  unfold RaftManager.resetVotedfor at h
  split at h
  · exact absurd h (by simp)
  · rename_i hc
    rw [Option.some.injEq, Prod.mk.injEq] at h
    exact ⟨not_not.mp hc, by rw [← h.2, h.1], h.1.symm⟩

/-- A new campaign: the server votes for itself in a term it has not voted in. -/
theorem election_requestVote {servers : List ServerId} {r : RaftManager} {x : Snapshot}
    (hw : ElectionWorld Configs w) (hs : ElectionServer w s v)
    (hmem : Configs servers ∧ s ∈ servers) (hr : v.raft.requestVote s servers = some (r, x))
    (hstep : ThreadStep s v net env (.voteInit servers) o)
    (ho : o = Outcome.mk' { v with raft := r }
      (.updateRaftState x (.voteIndex servers r.term (r.numServers / 2)))) :
    Follows w (w.next s v (.voteInit servers) o) s ∧
      ElectionWorld Configs (w.next s v (.voteInit servers) o) ∧
      ElectionServer (w.next s v (.voteInit servers) o) s o.server ∧
      electionTimer Configs (w.next s v (.voteInit servers) o) s o.server o.thread := by
  obtain ⟨hc, -, rfl⟩ := requestVote_some hr
  have hterm : o.server.raft.term = v.raft.term + 1 := by
    rw [ho]
    rfl
  have hstate : o.server.raft.state = .candidate := by
    rw [ho]
    exact hc
  have hself : ∀ T, w.ledger.won T = some s → T ≤ v.raft.term := by
    intro T hT
    rw [← hs.term]
    exact (hw T s hT).1
  have hne : ¬ World.Elected v o := by
    rintro ⟨-, hl⟩
    rw [hstate] at hl
    exact absurd hl (by simp)
  have hwon := World.next_won (w := w) (s := s) (t := .voteInit servers) hne
  obtain ⟨hf, hs'⟩ := hs.follows hstep hne (by omega)
    (by
      intro c _ hb
      rw [hterm, hs.fresh _ (by omega)] at hb
      exact absurd hb (by simp))
    (by
      intro hl
      rw [hstate] at hl
      exact absurd hl (by simp))
  refine ⟨hf, hw.mono hf ?_ hwon ?_, hs', ?_⟩
  · rw [hs.term, hs'.term]
    omega
  · intro T hT hb
    have := hself T hT
    rw [World.next_ballot, Function.update_of_ne (by omega)]
    exact hb
  · subst ho
    refine ⟨rfl, hmem.1, hmem.2, List.nodup_nil, by simp, fun _ => ⟨rfl, rfl, rfl, rfl, ?_, by simp⟩⟩
    intro hT
    rw [hwon] at hT
    have hle : v.raft.term + 1 ≤ v.raft.term := hself _ hT
    omega

/-- A lost campaign: the vote that is taken back is the own one, for a term not won. -/
theorem election_voteLost {servers : List ServerId} {t : ℕ} {r : RaftManager} {x : Snapshot}
    (hw : ElectionWorld Configs w) (hs : ElectionServer w s v)
    (hcamp : Campaign Configs w s v servers t [] []) (hr : v.raft.resetVotedfor = some (r, x))
    (hstep : ThreadStep s v net env (.voteLost servers t) o)
    (ho : o = Outcome.mk' { v with raft := r } (.updateRaftState x (.voteInit servers))) :
    Follows w (w.next s v (.voteLost servers t) o) s ∧
      ElectionWorld Configs (w.next s v (.voteLost servers t) o) ∧
      ElectionServer (w.next s v (.voteLost servers t) o) s o.server ∧
      electionTimer Configs (w.next s v (.voteLost servers t) o) s o.server o.thread := by
  obtain ⟨hc, -, rfl⟩ := resetVotedfor_some hr
  have hcand := hcamp.candidacy hc
  have hterm : o.server.raft.term = v.raft.term := by
    rw [ho]
    rfl
  have hstate : o.server.raft.state = .candidate := by
    rw [ho]
    exact hc
  have hne : ¬ World.Elected v o := by
    rintro ⟨-, hl⟩
    rw [hstate] at hl
    exact absurd hl (by simp)
  obtain ⟨hf, hs'⟩ := hs.follows hstep hne hterm.ge
    (by
      intro c hcs hb
      rw [hterm, hs.vote, hcand.self] at hb
      exact absurd (Option.some.inj hb).symm hcs)
    (by
      intro hl
      rw [hstate] at hl
      exact absurd hl (by simp))
  refine ⟨hf, hw.mono hf ?_ (World.next_won hne) ?_, hs', ?_⟩
  · rw [hs.term, hs'.term, hterm]
  · intro T hT hb
    have hne : T ≠ o.server.raft.term := by
      intro heq
      rw [heq, hterm, hcand.term] at hT
      exact hcand.running hT
    rw [World.next_ballot, Function.update_of_ne hne]
    exact hb
  · subst ho
    exact ⟨hcamp.config, hcamp.mem⟩

/-- What `RaftManager::leader` changes. -/
theorem leader_some {r r' : RaftManager} {applied index : ℕ} {i : Option ℕ}
    (h : r.leader s applied index = some (r', i)) :
    r.state = .candidate ∧ r'.state = .leader ∧ r'.term = r.term ∧ r'.votedfor = r.votedfor ∧
      r'.servers = r.servers ∧ r'.numServers = r.numServers := by
  unfold RaftManager.leader at h
  split at h
  · exact absurd h (by simp)
  · rename_i hc
    rw [Option.some.injEq, Prod.mk.injEq] at h
    obtain ⟨rfl, -⟩ := h
    exact ⟨not_not.mp hc, rfl, rfl, rfl, rfl, rfl⟩

/-- A term that a candidate has the votes of a majority for has no other winner. -/
theorem ElectionWorld.won_none (hconf : ZoneConfigs Configs) (hw : ElectionWorld Configs w)
    {Q : Finset ServerId} {T : ℕ} (hQ : Majority Configs Q) (hb : ∀ f ∈ Q, w.ballot f T = some s)
    (hnot : w.ledger.won T ≠ some s) : w.ledger.won T = none := by
  cases hc : w.ledger.won T with
  | none => rfl
  | some c =>
    obtain ⟨-, Q', hQ', hb'⟩ := hw T c hc
    obtain ⟨f, hf, hf'⟩ := hconf.meet Q Q' hQ hQ'
    have heq : some s = some c := (hb f hf).symm.trans (hb' f hf')
    rw [hc, heq] at hnot
    exact absurd rfl hnot

/-- The ballots of a campaign that is won. -/
theorem Campaign.majority {servers granted : List ServerId} {t : ℕ}
    (h : Campaign Configs w s v servers t [] granted) (hs : ElectionServer w s v)
    (hsize : servers.length / 2 ≤ granted.length) (hc : v.raft.state = .candidate) :
    Majority Configs (insert s granted.toFinset) ∧
      ∀ f ∈ insert s granted.toFinset, w.ballot f v.raft.term = some s := by
  have hcand := h.candidacy hc
  refine ⟨majority_insert h.config h.mem h.nodup h.others hsize, ?_⟩
  intro f hf
  rw [Finset.mem_insert, List.mem_toFinset] at hf
  rcases hf with rfl | hf
  · rw [hs.vote]
    exact hcand.self
  · rw [hcand.term]
    exact hcand.votes f hf

/-- The term that the timer thread is about to win has no winner. -/
theorem electionTimer.won_none (hconf : ZoneConfigs Configs) (hw : ElectionWorld Configs w)
    (hs : ElectionServer w s v) {granted : List ServerId} {t applied index : ℕ}
    (ht : electionTimer Configs w s v (.leaderLock t granted applied index))
    (hc : v.raft.state = .candidate) : w.ledger.won v.raft.term = none := by
  obtain ⟨servers, hsize, hcamp⟩ := ht
  obtain ⟨hQ, hb⟩ := hcamp.majority hs hsize hc
  refine hw.won_none hconf hQ hb ?_
  rw [(hcamp.candidacy hc).term]
  exact (hcamp.candidacy hc).running

/-- A campaign that is won: the term had no winner before. -/
theorem election_leaderLock (hconf : ZoneConfigs Configs) {granted : List ServerId}
    {t applied index : ℕ} {r : RaftManager} {i : Option ℕ} (hw : ElectionWorld Configs w)
    (hs : ElectionServer w s v) (ht : electionTimer Configs w s v (.leaderLock t granted applied index))
    (hr : v.raft.leader s applied index = some (r, i))
    (hstep : ThreadStep s v net env (.leaderLock t granted applied index) o)
    (ho : o.server = { v with raft := r }) :
    Follows w (w.next s v (.leaderLock t granted applied index) o) s ∧
      ElectionWorld Configs (w.next s v (.leaderLock t granted applied index) o) ∧
      ElectionServer (w.next s v (.leaderLock t granted applied index) o) s o.server := by
  obtain ⟨hc, hl, hterm, hvote, -⟩ := leader_some hr
  have hnone := electionTimer.won_none hconf hw hs ht hc
  obtain ⟨servers, hsize, hcamp⟩ := ht
  obtain ⟨hQ, hb⟩ := hcamp.majority hs hsize hc
  have helected : World.Elected v o := ⟨hc, by rw [ho]; exact hl⟩
  have hwon : (w.next s v (.leaderLock t granted applied index) o).ledger.won =
      Function.update w.ledger.won v.raft.term (some s) := by
    simp [World.next, World.nextLedger, helected, Ledger.accept, Ledger.elect, hs.term]
  have hballot : (w.next s v (.leaderLock t granted applied index) o).ballot = w.ballot := by
    funext f
    by_cases hf : f = s
    · subst hf
      funext T
      rw [World.next_ballot, ho]
      show Function.update (w.ballot f) r.term r.votedfor T = _
      rw [hterm, hvote, ← hs.vote, Function.update_eq_self]
    · simp [World.next, hf]
  have hterms := World.next_term hs.term hstep
  have hot : o.server.raft.term = v.raft.term := by
    rw [ho]
    exact hterm
  have hne : ∀ T c, w.ledger.won T = some c → T ≠ v.raft.term := by
    intro T c hT heq
    rw [heq, hnone] at hT
    exact absurd hT (by simp)
  refine ⟨⟨?_, ?_, ?_, ?_, ?_⟩, ?_, ⟨?_, ?_, ?_, ?_⟩⟩
  · intro f _
    rw [hballot]
  · rw [hballot]
    exact fun T c _ h => h
  · intro f hf
    rw [hterms, Function.update_of_ne hf]
  · intro T c hT
    rw [hwon, Function.update_of_ne (hne T c hT)]
    exact hT
  · intro T c hT
    rw [hwon] at hT
    by_cases heq : T = v.raft.term
    · rw [heq, Function.update_self] at hT
      exact Or.inr (Option.some.inj hT).symm
    · rw [Function.update_of_ne heq] at hT
      exact Or.inl hT
  · intro T c hT
    rw [hterms, hot, ← hs.term, Function.update_eq_self, hballot]
    rw [hwon] at hT
    by_cases heq : T = v.raft.term
    · rw [heq, Function.update_self] at hT
      rw [← Option.some.inj hT, heq]
      exact ⟨hs.term.ge, _, hQ, hb⟩
    · rw [Function.update_of_ne heq] at hT
      exact hw T c hT
  · rw [hterms, Function.update_self]
  · rw [World.next_ballot, Function.update_self]
  · intro T hT
    rw [hballot]
    exact hs.fresh T (by omega)
  · intro _
    rw [hwon, hot, Function.update_self]

end Timer

/-! ## Every step keeps the invariant -/

section Step

variable {Configs : List ServerId → Prop} {w w' : World} {σ σ' : Cluster} {s : ServerId}
  {v : Server} {net : List Msg} {env : Env} {t : Thread} {o : Outcome} {e : Event}

/-- No step lowers the term. -/
theorem ThreadStep.term_le (h : ThreadStep s v net env t o) :
    v.raft.term ≤ o.server.raft.term := by
  cases h with
  | followerNewTerm t a k _ => exact (quiet_follower s v t a).term_le
  | followerSameTerm t a k _ => exact (quiet_follower s v t a).term_le
  | requestVote servers r x hr =>
    obtain ⟨-, -, rfl⟩ := requestVote_some hr
    exact Nat.le_succ _
  | voteLost servers t r x hr =>
    obtain ⟨-, -, rfl⟩ := resetVotedfor_some hr
    exact le_rfl
  | leaderLock t granted applied index r i hr => exact (leader_some hr).2.2.1.ge
  | voteCast p t li lt r x _ hr => exact (quiet_voteCast (s := s) hr).term_le
  | replicaSuccessLock f e i p => exact (v.raft.sameVote_replicateSuccess f i).term.ge
  | replicaFailure f e p => exact (v.raft.sameVote_replicateFailure f).term.ge
  | register i back => exact (v.raft.sameVote_replicateLog v.tickets i).term.ge
  | resetIndexLock f i => exact (v.raft.sameVote_resetIndex f i).term.ge
  | addServerLock f i => exact (quiet_addServer s v f i).term_le
  | _ => exact le_rfl

/-- A server that leads after a step led before it in the same term, or the timer thread has
just won this term. -/
theorem ThreadStep.leader_cases (h : ThreadStep s v net env t o)
    (hl : o.server.raft.state = .leader) :
    o.server.raft.term = v.raft.term ∧ (v.raft.state = .leader ∨
      (v.raft.state = .candidate ∧ ∃ T g a i, t = .leaderLock T g a i)) := by
  have hquiet : Quiet s v o.server → o.server.raft.term = v.raft.term ∧
      (v.raft.state = .leader ∨ (v.raft.state = .candidate ∧ ∃ T g a i, t = .leaderLock T g a i)) :=
    fun hq => ⟨(hq.leader hl).2, Or.inl (hq.leader hl).1⟩
  cases h with
  | followerNewTerm t a k _ => exact hquiet (quiet_follower s v t a)
  | followerSameTerm t a k _ => exact hquiet (quiet_follower s v t a)
  | requestVote servers r x hr =>
    obtain ⟨hc, -, rfl⟩ := requestVote_some hr
    have hl' : v.raft.state = .leader := hl
    rw [hc] at hl'
    exact absurd hl' (by simp)
  | voteLost servers t r x hr =>
    obtain ⟨hc, -, rfl⟩ := resetVotedfor_some hr
    have hl' : v.raft.state = .leader := hl
    rw [hc] at hl'
    exact absurd hl' (by simp)
  | leaderLock t granted applied index r i hr =>
    obtain ⟨hc, -, hterm, -⟩ := leader_some hr
    exact ⟨hterm, Or.inr ⟨hc, _, _, _, _, rfl⟩⟩
  | voteCast p t li lt r x _ hr => exact hquiet (quiet_voteCast hr)
  | replicaSuccessLock f e i p => exact hquiet (.of_sameVote (v.raft.sameVote_replicateSuccess f i))
  | replicaFailure f e p => exact hquiet (.of_sameVote (v.raft.sameVote_replicateFailure f))
  | register i back => exact hquiet (.of_sameVote (v.raft.sameVote_replicateLog v.tickets i))
  | resetIndexLock f i => exact hquiet (.of_sameVote (v.raft.sameVote_resetIndex f i))
  | addServerLock f i => exact hquiet (quiet_addServer s v f i)
  | _ => exact hquiet (.of_sameVote ⟨rfl, rfl, rfl, rfl, rfl, rfl, rfl⟩)

/-- A step that holds no election establishes what is asserted of its server. -/
theorem Quiet.establishes (hq : Quiet s v o.server) (hw : ElectionWorld Configs w)
    (hs : ElectionServer w s v) (h : ThreadStep s v net env t o)
    (hsent : ∀ m ∈ o.sent, electionMsg (w.next s v t o) m) (hstarted : o.started = []) :
    Follows w (w.next s v t o) s ∧ (election Configs).Establishes (w.next s v t o) s o := by
  obtain ⟨hf, hs', hown⟩ := hq.follows hs h
  refine ⟨hf, ⟨hw.mono hf ?_ (World.next_won hq.not_elected) (fun T _ hb => hown T s hb), hs', ?_,
    hsent, fun _ _ => trivial⟩⟩
  · rw [hs.term, hs'.term]
    exact hq.term_le
  · rw [hstarted]
    simp

theorem election_thread (hw : ElectionWorld Configs w) (hs : ElectionServer w s v)
    (ht : electionThread w s t) (hok : VoteInTerm v t) (h : ThreadStep s v net env t o) :
    Follows w (w.next s v t o) s ∧ (election Configs).Establishes (w.next s v t o) s o ∧
      electionThread (w.next s v t o) s o.thread := by
  have hq := quiet_of_electionThread ht h
  obtain ⟨hf, hs', -⟩ := hq.follows hs h
  obtain ⟨hthread, hsent, hstarted⟩ := electionThread_step hf hs' ht hok h
  exact ⟨hf, (hq.establishes hw hs h hsent hstarted).2, hthread⟩

theorem election_timer (hconf : ZoneConfigs Configs) (hw : ElectionWorld Configs w)
    (hs : ElectionServer w s v) (hnet : ∀ m ∈ net, electionMsg w m)
    (ht : electionTimer Configs w s v t) (h : ThreadStep s v net env t o) :
    Follows w (w.next s v t o) s ∧ (election Configs).Establishes (w.next s v t o) s o ∧
      electionTimer Configs (w.next s v t o) s o.server o.thread := by
  -- all steps but `request_vote`, `voteLost` and `leader` hold no election
  have hquiet : ∀ {t₁}, Quiet s v o.server →
      (∀ m ∈ o.sent, electionMsg (w.next s v t o) m) → o.started = [] → o.thread = t₁ →
      electionTimer Configs w s v t₁ → Follows w (w.next s v t o) s ∧
        (election Configs).Establishes (w.next s v t o) s o ∧
        electionTimer Configs (w.next s v t o) s o.server o.thread := by
    intro t₁ hq hsent hstarted heq ht₁
    obtain ⟨hf, hout⟩ := hq.establishes hw hs h hsent hstarted
    refine ⟨hf, hout, ?_⟩
    rw [heq]
    exact electionTimer_quiet hq hs h ht₁
  have hstep := h
  cases h with
  | goto hg =>
    exact hquiet (.of_eq rfl) (by simp [Outcome.mk']) rfl rfl (electionTimer_goto hconf hnet ht hg)
  | finish pending reconciling hx =>
    exact hquiet (.of_sameVote ⟨rfl, rfl, rfl, rfl, rfl, rfl, rfl⟩) (by simp [Outcome.mk']) rfl rfl
      trivial
  | updateRaftState x k => exact hquiet (.of_eq rfl) (by simp [Outcome.mk']) rfl rfl ht
  | followerSetup t k => exact hquiet (.of_eq rfl) (by simp [Outcome.mk']) rfl rfl ht
  | followerNewTerm t a k hlt =>
    refine hquiet (quiet_follower s v t a) (by simp [Outcome.mk']) rfl rfl ?_
    rw [show k = .done from ht]
    trivial
  | followerSameTerm t a k hle =>
    refine hquiet (quiet_follower s v t a) (by simp [Outcome.mk']) rfl rfl ?_
    rw [show k = .done from ht]
    trivial
  | requestVote servers r x hr =>
    obtain ⟨h1, h2, h3, h4⟩ := election_requestVote hw hs ht hr hstep rfl
    exact ⟨h1, ⟨h2, h3, by simp [Outcome.mk'], by simp [Outcome.mk'], fun _ _ => trivial⟩, h4⟩
  | voteSend servers t n li lt f rest granted =>
    refine hquiet (.of_eq rfl) ?_ rfl rfl ?_
    · intro m hm
      rw [Outcome.send, List.mem_singleton] at hm
      rw [hm]
      exact (ht.2.others f (by simp)).2.symm
    · exact ⟨ht.1, ht.2, rfl, fun hc => (ht.2.candidacy hc).term⟩
  | voteLost servers t r x hr =>
    obtain ⟨h1, h2, h3, h4⟩ := election_voteLost hw hs ht hr hstep rfl
    exact ⟨h1, ⟨h2, h3, by simp [Outcome.mk'], by simp [Outcome.mk'], fun _ _ => trivial⟩, h4⟩
  | leaderSetup t granted => exact hquiet (.of_eq rfl) (by simp [Outcome.mk']) rfl rfl ht
  | leaderLock t granted applied index r i hr =>
    obtain ⟨h1, h2, h3⟩ := election_leaderLock hconf hw hs ht hr hstep rfl
    refine ⟨h1, ⟨h2, h3, ?_, by simp, fun _ _ => trivial⟩, trivial⟩
    intro t' ht'
    obtain ⟨j, rfl, rfl⟩ := Option.mem_map.mp (Option.mem_toList.mp ht')
    trivial
  | _ => exact False.elim ht

/-- **Every step keeps the invariant of elections**, and the winners. -/
theorem election_move (hconf : ZoneConfigs Configs) (h : (election Configs).Holds w σ)
    (hok : ElectionOk Configs σ e) (hmove : Cluster.Move w σ e σ' w') :
    (election Configs).Holds w' σ' ∧
      ∀ T c, w.ledger.won T = some c → w'.ledger.won T = some c := by
  cases hmove with
  | timeout s servers htimer hstate =>
    have hs := h.server s
    refine ⟨h.put (election_frame (Follows.refl w s) _ _) h.world
      ⟨hs.term, hs.vote, hs.fresh, fun hl => absurd hl (by simp)⟩ hok.event
      (fun t ht => Or.inl ht) (by simp) (by simp), fun _ _ hT => hT⟩
  | timer s env o hstep =>
    obtain ⟨hf, hout, ht⟩ := election_timer hconf h.world (h.server s) h.msg (h.timer s) hstep
    exact ⟨h.timer_step (election_frame hf _ _) hout ht, hf.won_le⟩
  | thread s i env t o hi hstep =>
    have hmem := List.mem_of_getElem? hi
    have hrun := Cluster.running_thread hi env
    have hvote : VoteInTerm (σ.node s).server t := hok.vote.elim hrun
    obtain ⟨hf, hout, ht⟩ := election_thread h.world (h.server s) (h.thread s t hmem) hvote hstep
    have hq := quiet_of_electionThread (h.thread s t hmem) hstep
    exact ⟨h.thread_step (election_frame hf _ _) hout ht
      (electionTimer_quiet hq (h.server s) hstep (h.timer s)), hf.won_le⟩
  | start e s t pending hstart =>
    have hs := h.server s
    refine ⟨h.put (election_frame (Follows.refl w s) _ _) h.world
      ⟨hs.term, hs.vote, hs.fresh, hs.leads⟩ ?_ ?_ (by simp) (by simp), fun _ _ hT => hT⟩
    · refine electionTimer_mono (v := (σ.node s).server) ?_ (fun T hT => hT)
        (fun f T _ hb => hb) _ (h.timer s)
      exact fun hc => ⟨hc, rfl, rfl, rfl, fun hv => hv⟩
    · intro t' ht'
      refine (List.mem_append.mp ht').imp_right ?_
      intro heq
      rw [List.mem_singleton.mp heq]
      cases hstart with
      | vote hm hdst => exact ⟨h.msg _ hm, hdst⟩
      | _ => trivial
  | restart s servers now text =>
    have hs := h.server s
    have hrow : (σ.node s).server.row.attributes =
        ⟨(σ.node s).server.raft.term, (σ.node s).server.raft.votedfor⟩ := hok.event
    refine ⟨h.put (election_frame (Follows.refl w s) _ _) h.world ⟨?_, ?_, ?_, ?_⟩ trivial
      (by simp) (by simp) (by simp), fun _ _ hT => hT⟩
    · show _ = (σ.node s).server.row.attributes.term
      rw [hrow]
      exact hs.term
    · show w.ballot s (σ.node s).server.row.attributes.term = (σ.node s).server.row.attributes.votedfor
      rw [hrow]
      exact hs.vote
    · intro T hT
      have hT' : (σ.node s).server.row.attributes.term < T := hT
      rw [hrow] at hT'
      exact hs.fresh T hT'
    · intro hl
      exact absurd hl (by simp [Cluster.restarted, RaftManager.construct])

theorem election_init (Configs : List ServerId → Prop) (zone : List ServerId)
    (text : ServerId → Sql) : (election Configs).Holds World.init (Cluster.init zone text) where
  world := fun T c h => absurd h (by simp [World.init])
  server := fun s => ⟨rfl, rfl, fun T _ => rfl, fun hl => absurd hl (by
    simp [Cluster.init, RaftManager.construct])⟩
  timer := fun s => trivial
  thread := fun s t ht => absurd ht (by simp [Cluster.init])
  msg := fun m hm => absurd hm (by simp [Cluster.init])
  obs := fun _ _ => trivial

end Step

/-! ## Election safety -/

/-- In the states of a run there is a world with the invariant, and it remembers the winners
that the world at the start of the run had. -/
theorem election_reach {Configs : List ServerId → Prop} (hconf : ZoneConfigs Configs) {w : World}
    {σ σ' : Cluster} (h : (election Configs).Holds w σ)
    (hrun : Reach Cluster.step (ElectionOk Configs) σ σ') :
    ∃ w', (election Configs).Holds w' σ' ∧
      ∀ T c, w.ledger.won T = some c → w'.ledger.won T = some c := by
  refine hrun.inv (P := fun σ' => ∃ w', (election Configs).Holds w' σ' ∧
    ∀ T c, w.ledger.won T = some c → w'.ledger.won T = some c) ⟨w, h, fun _ _ hT => hT⟩ ?_
  rintro σ₁ e σ₂ ⟨w₁, h₁, hwon⟩ hok hstep
  obtain ⟨w₂, hmove⟩ := Cluster.step_cases w₁ hstep
  obtain ⟨h₂, hwon₂⟩ := election_move hconf h₁ hok hmove
  exact ⟨w₂, h₂, fun T c hT => hwon₂ T c (hwon T c hT)⟩

/-- **Election safety.**  In a zone with a fixed set of servers, in every run whose steps meet
`ElectionOk`: a server that is leader and a server that is leader then or later, in the same
term, are the same. -/
theorem leader_unique_of_electionOk {zone : List ServerId} (hzone : zone.Nodup)
    (text : ServerId → Sql) {σ σ' : Cluster}
    (hrun : Reach Cluster.step (ElectionOk (· = zone)) (Cluster.init zone text) σ)
    (hrun' : Reach Cluster.step (ElectionOk (· = zone)) σ σ') {s s' : ServerId}
    (hs : (σ.node s).server.raft.state = .leader) (hs' : (σ'.node s').server.raft.state = .leader)
    (hterm : (σ.node s).server.raft.term = (σ'.node s').server.raft.term) : s = s' := by
  have hconf := zoneConfigs_fixed hzone
  obtain ⟨w, hw, -⟩ := election_reach hconf (election_init _ zone text) hrun
  obtain ⟨w', hw', hwon⟩ := election_reach hconf hw hrun'
  have h1 := hwon _ _ ((hw.server s).leads hs)
  have h2 := (hw'.server s').leads hs'
  rw [hterm, h2] at h1
  exact (Option.some.inj h1).symm

/-- A run in which server `0` of a zone of three wins term 1 with the vote of server `1`. -/
def electionRun : List (ℕ × Event) :=
  [(1, .timeout 0 [0, 1, 2]), (4, .timer 0 .calm), (1, .recvVote 1 ⟨0, 1, 1, 0, 0⟩),
    (8, .thread 1 0 .calm), (1, .timer 0 (.answer true 0)), (2, .timer 0 .calm)]

theorem leader_unique_electionRun :
    ∃ σ, Reach Cluster.step (ElectionOk (· = [0, 1, 2]))
        (Cluster.init [0, 1, 2] (fun _ => ['0'])) σ ∧
      (σ.node 0).server.raft.state = .leader ∧
      ∀ s, (σ.node s).server.raft.state = .leader →
        (σ.node 0).server.raft.term = (σ.node s).server.raft.term → 0 = s := by
  have hrun : ((runChecked Cluster.step (ElectionOk (· = [0, 1, 2]))
      (Cluster.init [0, 1, 2] (fun _ => ['0'])) (repeated electionRun)).map
        (fun σ => (σ.node 0).server.raft.state)) = some .leader := by decide
  obtain ⟨σ, hσ, hl⟩ := Option.map_eq_some_iff.mp hrun
  have hreach := reach_of_runChecked _ hσ
  exact ⟨σ, hreach, hl, fun s hs hterm =>
    leader_unique_of_electionOk (by decide) _ hreach Reach.refl hl hs hterm⟩

/-- The run in which two servers lead the same term.  Server `2` votes for server `1`, which
wins term 1.  A second handler of server `2` has compared the logs for the request of server
`0`, also for term 1, when server `2` starts and loses an election of term 2 and resets its
vote; the handler then finds no vote and grants its own. -/
def staleVoteRun : List (ℕ × Event) :=
  [(1, .timeout 1 [0, 1, 2]), (6, .timer 1 .calm), (1, .recvVote 2 ⟨1, 2, 1, 0, 0⟩),
    (8, .thread 2 0 .calm), (1, .timer 1 (.answer true 0)), (2, .timer 1 .calm),
    (1, .timeout 0 [0, 1, 2]), (6, .timer 0 .calm), (1, .recvVote 2 ⟨0, 2, 1, 0, 0⟩),
    (2, .thread 2 1 .calm), (1, .timeout 2 [0, 1, 2]), (8, .timer 2 .calm),
    (3, .thread 2 1 .calm), (1, .timer 0 (.answer true 1)), (2, .timer 0 .calm)]

/-- Without the condition, two servers can be leader in the same term. -/
theorem two_leaders_in_one_term :
    ¬ ∀ σ, Reach Cluster.step (fun _ e => e.inZone [0, 1, 2] = true)
        (Cluster.init [0, 1, 2] (fun _ => ['0'])) σ →
      ∀ s s', (σ.node s).server.raft.state = .leader → (σ.node s').server.raft.state = .leader →
        (σ.node s).server.raft.term = (σ.node s').server.raft.term → s = s' := by
  intro h
  have hrun : ((runEvents Cluster.step (Cluster.init [0, 1, 2] (fun _ => ['0']))
      (repeated staleVoteRun)).map (fun σ =>
        ((σ.node 0).server.raft.state, (σ.node 0).server.raft.term,
          (σ.node 1).server.raft.state, (σ.node 1).server.raft.term))) =
      some (.leader, 1, .leader, 1) := by decide
  obtain ⟨σ, hσ, hleaders⟩ := Option.map_eq_some_iff.mp hrun
  simp only [Prod.mk.injEq] at hleaders
  obtain ⟨h0, t0, h1, t1⟩ := hleaders
  have hzone : ∀ e ∈ repeated staleVoteRun, e.inZone [0, 1, 2] = true := by decide
  exact absurd (h σ (reach_of_runEvents _ hzone hσ) 0 1 h0 h1 (t0.trans t1.symm)) (by simp)
