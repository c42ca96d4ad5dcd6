/-
# Persistence of the vote

`RaftManager` changes the term and the vote under `raft_mutex`, makes the text of `raft_state`
there, and writes it to the database after it has released the lock.  When no thread has such a
write before it, the row `RAFT_STATE` has the term and the vote of the server, in every run in
which the writes arrive in order (`PersistOk`): a text is never written over a newer one, and the
database executes the write.

The invariant `Persisted` numbers the changes.  The text of the last change is in the row or
still has to be written by some thread.
-/
import OpenNebula.ElectionSafety

open Transition

/-! ## The condition on the steps -/

/-- The text that a thread is about to write. -/
def Thread.unwritten : Thread → Option Snapshot
  | .updateRaftState x _ => some x
  | _ => none

/-- A write is executed, and the row has no newer state. -/
def WriteInOrder (v : Server) (t : Thread) (env : Env) : Prop :=
  ∀ x ∈ t.unwritten, env.dbOk = true ∧ v.row.changes ≤ x.changes

instance (v : Server) (t : Thread) (env : Env) : Decidable (WriteInOrder v t env) :=
  inferInstanceAs (Decidable (∀ x ∈ t.unwritten, _))

/-- The steps that the persistence of the vote needs. -/
def PersistOk (σ : Cluster) (e : Event) : Prop :=
  σ.Running e (fun s t env => WriteInOrder (σ.node s).server t env)

instance (σ : Cluster) (e : Event) : Decidable (PersistOk σ e) :=
  inferInstanceAs (Decidable (σ.Running e _))

/-! ## The invariant -/

/-- No write is hidden in what a thread does later. -/
def Thread.Flat : Thread → Prop
  | .updateRaftState _ k | .followerSetup _ k | .followerLock _ _ k => k.unwritten = none ∧ k.Flat
  | _ => True

/-- The Raft state of a server in memory, with the number of its changes, and its text. -/
def Current (r : RaftManager) (x : Snapshot) : Prop :=
  x.changes ≤ r.changes ∧ (x.changes = r.changes → x.attributes = r.raftState)

/-- The last change of the term or the vote is in the database, or a thread is about to write
it. -/
structure Persisted (n : Node) : Prop where
  attributes : n.server.raft.raftState = ⟨n.server.raft.term, n.server.raft.votedfor⟩
  row : Current n.server.raft n.server.row
  texts : ∀ t ∈ n.all, ∀ x ∈ t.unwritten, Current n.server.raft x
  last : n.server.row.changes = n.server.raft.changes ∨
    ∃ t ∈ n.all, ∃ x ∈ t.unwritten, x.changes = n.server.raft.changes
  flat : ∀ t ∈ n.all, t.Flat

/-! ## What a step does -/

/-- The term, the vote and their text are the same. -/
structure SameText (r r' : RaftManager) : Prop where
  term : r'.term = r.term
  votedfor : r'.votedfor = r.votedfor
  raftState : r'.raftState = r.raftState
  changes : r'.changes = r.changes

theorem RaftManager.SameVote.sameText {r r' : RaftManager} (h : RaftManager.SameVote r r') :
    SameText r r' :=
  ⟨h.term, h.votedfor, h.raftState, h.changes⟩

/-- The steps of a thread, as far as the term and the vote are concerned. -/
inductive PersistStep (v : Server) (env : Env) (t : Thread) (o : Outcome) : Prop
  | keep : SameText v.raft o.server.raft → o.server.row = v.row →
      t.unwritten = none → o.thread.unwritten = none → PersistStep v env t o
  | change : o.server.raft.changes = v.raft.changes + 1 →
      o.server.raft.raftState = ⟨o.server.raft.term, o.server.raft.votedfor⟩ →
      o.server.row = v.row → t.unwritten = none →
      o.thread.unwritten = some o.server.raft.snapshot → PersistStep v env t o
  | write (x : Snapshot) : t.unwritten = some x → o.server.raft = v.raft →
      o.server.row = (if env.dbOk then x else v.row) → o.thread.unwritten = none →
      PersistStep v env t o

section Step

variable {s : ServerId} {v : Server} {net : List Msg} {env : Env} {t : Thread} {o : Outcome}

theorem unwritten_voteNext (servers todo granted : List ServerId) (T n li lt : ℕ) :
    (Thread.voteNext servers T n li lt todo granted).unwritten = none ∧
      (Thread.voteNext servers T n li lt todo granted).Flat := by
  unfold Thread.voteNext
  split
  · exact ⟨rfl, trivial⟩
  · split <;> exact ⟨rfl, trivial⟩

theorem unwritten_dispatch (p : ReplicateParams) (c : ℕ) :
    (Thread.replDispatch p c).unwritten = none ∧ (Thread.replDispatch p c).Flat := by
  unfold Thread.replDispatch
  split
  · exact ⟨rfl, trivial⟩
  · split
    · exact ⟨rfl, trivial⟩
    · split <;> exact ⟨rfl, trivial⟩

theorem unwritten_goto {t' : Thread} (h : Goto s v net env t t') :
    t.unwritten = none ∧ t'.unwritten = none ∧ t'.Flat := by
  cases h with
  | voteAlone => exact ⟨rfl, unwritten_voteNext _ _ _ _ _ _ _⟩
  | voteSkip => exact ⟨rfl, unwritten_voteNext _ _ _ _ _ _ _⟩
  | voteDenied => exact ⟨rfl, unwritten_voteNext _ _ _ _ _ _ _⟩
  | voteGranted _ => exact ⟨rfl, unwritten_voteNext _ _ _ _ _ _ _⟩
  | replCandidate _ => exact ⟨rfl, rfl, unwritten_dispatch _ _⟩
  | replNotCandidate _ => exact ⟨rfl, unwritten_dispatch _ _⟩
  | voteStepDown => exact ⟨rfl, rfl, rfl, trivial⟩
  | voteNewTerm => exact ⟨rfl, rfl, rfl, trivial⟩
  | replNewTerm _ => exact ⟨rfl, rfl, rfl, trivial⟩
  | replicaStepDown => exact ⟨rfl, rfl, rfl, trivial⟩
  | beatStepDown => exact ⟨rfl, rfl, rfl, trivial⟩
  | _ => exact ⟨rfl, rfl, trivial⟩

/-- **Each step keeps the term and the vote, changes them and has a text to write, or writes
one.** -/
theorem persistStep_of_step (hattr : v.raft.raftState = ⟨v.raft.term, v.raft.votedfor⟩)
    (hflat : t.Flat) (h : ThreadStep s v net env t o) : PersistStep v env t o ∧ o.thread.Flat := by
  have hsame : SameText v.raft v.raft := ⟨rfl, rfl, rfl, rfl⟩
  cases h with
  | goto hg =>
    obtain ⟨h1, h2, h3⟩ := unwritten_goto hg
    exact ⟨.keep hsame rfl h1 h2, h3⟩
  | finish pending reconciling hx =>
    refine ⟨.keep ⟨rfl, rfl, rfl, rfl⟩ rfl ?_ rfl, trivial⟩
    cases t with
    | updateRaftState x k => exact absurd rfl (hx x k)
    | _ => rfl
  | updateRaftState x k => exact ⟨.write x rfl rfl rfl hflat.1, hflat.2⟩
  | followerSetup t k => exact ⟨.keep hsame rfl rfl rfl, hflat⟩
  | followerNewTerm t a k hlt =>
    refine ⟨.change ?_ ?_ rfl rfl ?_, hflat⟩
    · show (v.raft.follower t a).1.changes = _
      simp [RaftManager.follower, hlt, RaftManager.replaceState]
    · show (v.raft.follower t a).1.raftState =
        ⟨(v.raft.follower t a).1.term, (v.raft.follower t a).1.votedfor⟩
      simp [RaftManager.follower, hlt, RaftManager.replaceState]
    · show some _ = some (v.raft.follower t a).1.snapshot
      simp [RaftManager.follower, hlt, RaftManager.replaceState, RaftManager.snapshot]
  | followerSameTerm t a k hle =>
    have hnot : ¬ v.raft.term < t := not_lt.mpr hle
    refine ⟨.keep ⟨?_, ?_, ?_, ?_⟩ rfl rfl hflat.1, hflat.2⟩ <;>
      simp [Outcome.mk', RaftManager.follower, hnot]
  | requestVote servers r x hr =>
    obtain ⟨-, rfl, rfl⟩ := requestVote_some hr
    exact ⟨.change rfl rfl rfl rfl rfl, rfl, trivial⟩
  | voteLost servers t r x hr =>
    obtain ⟨-, rfl, rfl⟩ := resetVotedfor_some hr
    refine ⟨.change rfl ?_ rfl rfl rfl, rfl, trivial⟩
    show RaftAttributes.mk v.raft.raftState.term none = _
    rw [hattr]
    rfl
  | voteCast p c li lt r x _ hr =>
    obtain ⟨-, rfl, rfl⟩ := updateVotedfor_some hr
    refine ⟨.change rfl ?_ rfl rfl rfl, rfl, trivial⟩
    show RaftAttributes.mk v.raft.raftState.term (some p.candidateId) = _
    rw [hattr]
    rfl
  | leaderLock t granted applied index r i hr =>
    unfold RaftManager.leader at hr
    split at hr
    · exact absurd hr (by simp)
    · rw [Option.some.injEq, Prod.mk.injEq] at hr
      obtain ⟨rfl, -⟩ := hr
      exact ⟨.keep ⟨rfl, rfl, rfl, rfl⟩ rfl rfl rfl, trivial⟩
  | replicaSuccessLock f e i p =>
    exact ⟨.keep (v.raft.sameVote_replicateSuccess f i).sameText rfl rfl rfl, trivial⟩
  | replicaFailure f e p => exact ⟨.keep (v.raft.sameVote_replicateFailure f).sameText rfl rfl rfl, trivial⟩
  | register i back =>
    exact ⟨.keep (v.raft.sameVote_replicateLog v.tickets i).sameText rfl rfl rfl, trivial⟩
  | resetIndexLock f i => exact ⟨.keep (v.raft.sameVote_resetIndex f i).sameText rfl rfl rfl, trivial⟩
  | addServerLock f i =>
    refine ⟨.keep ?_ rfl rfl rfl, trivial⟩
    show SameText v.raft (v.raft.addServer f i)
    unfold RaftManager.addServer
    split <;> exact ⟨rfl, rfl, rfl, rfl⟩
  | applyRecords i back =>
    refine ⟨.keep ⟨rfl, rfl, rfl, rfl⟩ rfl rfl ?_, ?_⟩
    · show (if back then Thread.reconciled else .done).unwritten = none
      split <;> rfl
    · show (if back then Thread.reconciled else .done).Flat
      split <;> trivial
  | _ => exact ⟨.keep ⟨rfl, rfl, rfl, rfl⟩ rfl rfl rfl, trivial⟩

theorem unwritten_started (h : ThreadStep s v net env t o) :
    ∀ t' ∈ o.started, t'.unwritten = none ∧ t'.Flat := by
  cases h with
  | leaderLock t granted applied index r i hr =>
    intro t' ht'
    obtain ⟨j, rfl, rfl⟩ := Option.mem_map.mp (Option.mem_toList.mp ht')
    exact ⟨rfl, trivial⟩
  | _ => simp [Outcome.mk', Outcome.send]

/-- A text stays what it is while the state does not change. -/
theorem Current.of_same {r r' : RaftManager} {x : Snapshot} (h : Current r x)
    (hs : SameText r r') : Current r' x := by
  unfold Current
  rw [hs.changes, hs.raftState]
  exact h

/-- A text is older than the next change. -/
theorem Current.of_change {r r' : RaftManager} {x : Snapshot} (h : Current r x)
    (hc : r'.changes = r.changes + 1) : Current r' x := by
  have := h.1
  exact ⟨by omega, fun heq => by omega⟩

/-- **One step of a thread.**  `hall` and `hkeep` say what becomes of the threads of the
server. -/
theorem Persisted.step {n n' : Node} (h : Persisted n) (hmem : t ∈ n.all)
    (hserver : n'.server = o.server)
    (hall : ∀ t' ∈ n'.all, t' ∈ n.all ∨ t' = o.thread ∨ t' ∈ o.started)
    (hkeep : ∀ t' ∈ n.all, t' ≠ t → t' ∈ n'.all) (hin : o.thread ∈ n'.all)
    (hok : WriteInOrder n.server t env) (hstep : ThreadStep s n.server net env t o) :
    Persisted n' := by
  obtain ⟨hp, hflat⟩ := persistStep_of_step h.attributes (h.flat t hmem) hstep
  have hstarted := unwritten_started hstep
  have hflat' : ∀ t' ∈ n'.all, t'.Flat := by
    intro t' ht'
    rcases hall t' ht' with hold | rfl | hnew
    · exact h.flat t' hold
    · exact hflat
    · exact (hstarted t' hnew).2
  -- the texts that are not new
  have htexts : ∀ t' ∈ n'.all, ∀ x ∈ t'.unwritten, Current n.server.raft x ∨
      x ∈ o.thread.unwritten := by
    intro t' ht' x hx
    rcases hall t' ht' with hold | rfl | hnew
    · exact Or.inl (h.texts t' hold x hx)
    · exact Or.inr hx
    · rw [(hstarted t' hnew).1] at hx
      exact absurd hx (by simp)
  cases hp with
  | keep hsame hrow hold hnew =>
    rw [hnew] at htexts
    refine ⟨?_, ?_, ?_, ?_, hflat'⟩
    · rw [hserver, hsame.raftState, hsame.term, hsame.votedfor]
      exact h.attributes
    · rw [hserver, hrow]
      exact h.row.of_same hsame
    · intro t' ht' x hx
      rw [hserver]
      exact ((htexts t' ht' x hx).resolve_right (by simp)).of_same hsame
    · rw [hserver, hrow, hsame.changes]
      refine h.last.imp_right ?_
      rintro ⟨t₀, ht₀, x, hx, heq⟩
      refine ⟨t₀, hkeep t₀ ht₀ ?_, x, hx, heq⟩
      rintro rfl
      rw [hold] at hx
      exact absurd hx (by simp)
  | change hchanges hattr hrow hold hnew =>
    rw [hnew] at htexts
    refine ⟨?_, ?_, ?_, ?_, hflat'⟩
    · rw [hserver]
      exact hattr
    · rw [hserver, hrow]
      exact h.row.of_change hchanges
    · intro t' ht' x hx
      rw [hserver]
      rcases htexts t' ht' x hx with hcur | hcur
      · exact hcur.of_change hchanges
      · rw [← Option.some.inj hcur]
        exact ⟨le_rfl, fun _ => rfl⟩
    · rw [hserver]
      exact Or.inr ⟨o.thread, hin, _, hnew, rfl⟩
  | write x hx hraft hrow hnew =>
    rw [hnew] at htexts
    obtain ⟨hdb, hle⟩ := hok x hx
    rw [hdb, if_pos rfl] at hrow
    have hcur := h.texts t hmem x hx
    refine ⟨?_, ?_, ?_, ?_, hflat'⟩
    · rw [hserver, hraft]
      exact h.attributes
    · rw [hserver, hraft, hrow]
      exact hcur
    · intro t' ht' y hy
      rw [hserver, hraft]
      exact (htexts t' ht' y hy).resolve_right (by simp)
    · rw [hserver, hraft, hrow]
      by_cases heq : x.changes = n.server.raft.changes
      · exact Or.inl heq
      · -- the last change is in another thread, for the row is not newer than `x`
        refine Or.inr ?_
        rcases h.last with hlast | ⟨t₀, ht₀, y, hy, hlast⟩
        · have := hcur.1
          omega
        · refine ⟨t₀, hkeep t₀ ht₀ ?_, y, hy, hlast⟩
          rintro rfl
          rw [hx] at hy
          exact heq (Option.some.inj hy ▸ hlast)

end Step

/-! ## Every step keeps the invariant -/

section Run

variable {σ σ' : Cluster} {e : Event}

/-- A server that only gets a new thread, without a text to write. -/
theorem Persisted.start {n n' : Node} (h : Persisted n) (hsame : SameText n.server.raft n'.server.raft)
    (hrow : n'.server.row = n.server.row)
    (hall : ∀ t ∈ n'.all, t ∈ n.all ∨ (t.unwritten = none ∧ t.Flat))
    (hkeep : ∀ t ∈ n.all, t.unwritten ≠ none → t ∈ n'.all) : Persisted n' := by
  refine ⟨?_, hrow ▸ h.row.of_same hsame, ?_, ?_, ?_⟩
  · rw [hsame.raftState, hsame.term, hsame.votedfor]
    exact h.attributes
  · intro t ht x hx
    rcases hall t ht with hold | ⟨hnone, -⟩
    · exact (h.texts t hold x hx).of_same hsame
    · rw [hnone] at hx
      exact absurd hx (by simp)
  · rw [hrow, hsame.changes]
    refine h.last.imp_right ?_
    rintro ⟨t, ht, x, hx, heq⟩
    refine ⟨t, hkeep t ht ?_, x, hx, heq⟩
    rw [hx]
    simp
  · intro t ht
    rcases hall t ht with hold | ⟨-, hflat⟩
    · exact h.flat t hold
    · exact hflat

/-- **Every step keeps the invariant of persistence.** -/
theorem persisted_move {w w' : World} (h : ∀ s, Persisted (σ.node s)) (hok : PersistOk σ e)
    (hmove : Cluster.Move w σ e σ' w') (s : ServerId) : Persisted (σ'.node s) := by
  cases hmove.node s with
  | same heq => exact heq ▸ h s
  | timeout servers htimer _ heq =>
    rw [heq]
    refine (h s).start ⟨rfl, rfl, rfl, rfl⟩ rfl ?_ ?_
    · intro t ht
      rcases List.mem_cons.mp ht with rfl | ht
      · exact Or.inr ⟨rfl, trivial⟩
      · exact Or.inl (List.mem_cons_of_mem _ ht)
    · intro t ht hne
      rcases List.mem_cons.mp ht with rfl | ht
      · rw [htimer] at hne
        exact absurd rfl hne
      · exact List.mem_cons_of_mem _ ht
  | step t env o hrun hmem hstep hserver hall hkeep hin =>
    exact (h s).step hmem hserver hall hkeep hin (Cluster.Running.elim hok hrun) hstep
  | start t pending hstart heq =>
    rw [heq]
    refine (h s).start ⟨rfl, rfl, rfl, rfl⟩ rfl ?_ ?_
    · intro t' ht'
      rcases List.mem_cons.mp ht' with rfl | ht'
      · exact Or.inl List.mem_cons_self
      · refine (List.mem_append.mp ht').imp (List.mem_cons_of_mem _) ?_
        intro heq
        rw [List.mem_singleton.mp heq]
        cases hstart <;> exact ⟨rfl, trivial⟩
    · intro t' ht' _
      rcases List.mem_cons.mp ht' with rfl | ht'
      · exact List.mem_cons_self
      · exact List.mem_cons_of_mem _ (List.mem_append_left _ ht')
  | restart servers now text heq =>
    rw [heq]
    refine ⟨rfl, ⟨le_rfl, fun _ => rfl⟩, ?_, Or.inl rfl, ?_⟩
    · intro t ht x hx
      rw [List.mem_singleton.mp ht] at hx
      exact absurd hx (by simp [Thread.unwritten])
    · intro t ht
      rw [List.mem_singleton.mp ht]
      trivial

theorem persisted_init (zone : List ServerId) (text : ServerId → Sql) (s : ServerId) :
    Persisted ((Cluster.init zone text).node s) := by
  refine ⟨rfl, ⟨le_rfl, fun _ => rfl⟩, ?_, Or.inl rfl, ?_⟩
  · intro t ht x hx
    rw [List.mem_singleton.mp ht] at hx
    exact absurd hx (by simp [Cluster.init, Thread.unwritten])
  · intro t ht
    rw [List.mem_singleton.mp ht]
    trivial

theorem persisted_reach {zone : List ServerId} {text : ServerId → Sql}
    (hrun : Reach Cluster.step PersistOk (Cluster.init zone text) σ) :
    ∀ s, Persisted (σ.node s) := by
  refine hrun.inv (P := fun σ => ∀ s, Persisted (σ.node s)) (persisted_init zone text) ?_
  intro σ₁ e σ₂ h hok hstep
  obtain ⟨w, hmove⟩ := Cluster.step_cases World.init hstep
  exact persisted_move h hok hmove

end Run

/-! ## Persistence of the vote -/

/-- **Persistence of the vote.**  In every run whose steps meet `PersistOk`: when no thread of a
server has a text of `raft_state` to write, the row in the database has the term and the vote of
the server, and a server that restarts then has the same term and the same vote. -/
theorem vote_persistent_of_persistOk {zone : List ServerId} {text : ServerId → Sql} {σ : Cluster}
    (hrun : Reach Cluster.step PersistOk (Cluster.init zone text) σ) (s : ServerId)
    (hquiet : ∀ t ∈ (σ.node s).all, t.unwritten = none) :
    (σ.node s).server.row.attributes =
        ⟨(σ.node s).server.raft.term, (σ.node s).server.raft.votedfor⟩ ∧
      ∀ servers now boot σ', σ.step (.restart s servers now boot) = some σ' →
        (σ'.node s).server.raft.term = (σ.node s).server.raft.term ∧
        (σ'.node s).server.raft.votedfor = (σ.node s).server.raft.votedfor := by
  have h := persisted_reach hrun s
  have hrow : (σ.node s).server.row.attributes =
      ⟨(σ.node s).server.raft.term, (σ.node s).server.raft.votedfor⟩ := by
    rw [← h.attributes]
    apply h.row.2
    rcases h.last with hlast | ⟨t, ht, x, hx, -⟩
    · exact hlast
    · rw [hquiet t ht] at hx
      exact absurd hx (by simp)
  refine ⟨hrow, ?_⟩
  intro servers now boot σ' hstep
  simp only [Cluster.step, Option.some.injEq] at hstep
  rw [← hstep]
  simp [Cluster.put, RaftManager.construct, hrow]

theorem vote_persistent_electionRun :
    ∃ σ, Reach Cluster.step PersistOk (Cluster.init [0, 1, 2] (fun _ => ['0'])) σ ∧
      (∀ t ∈ (σ.node 1).all, t.unwritten = none) ∧
      (σ.node 1).server.row.attributes = ⟨1, some 0⟩ := by
  have hrun : ((runChecked Cluster.step PersistOk (Cluster.init [0, 1, 2] (fun _ => ['0']))
      (repeated electionRun)).map (fun σ => (decide (∀ t ∈ (σ.node 1).all, t.unwritten = none),
        (σ.node 1).server.raft.term, (σ.node 1).server.raft.votedfor))) =
      some (true, 1, some 0) := by decide
  obtain ⟨σ, hσ, hvote⟩ := Option.map_eq_some_iff.mp hrun
  simp only [Prod.mk.injEq, decide_eq_true_eq] at hvote
  obtain ⟨hquiet, hterm, hfor⟩ := hvote
  have hreach := reach_of_runChecked _ hσ
  refine ⟨σ, hreach, hquiet, ?_⟩
  have hrow := (vote_persistent_of_persistOk hreach 1 hquiet).1
  rw [hrow, hterm, hfor]

/-- The run in which a vote is lost.  Two handlers of server `1` answer requests of term 1.  The
first has raised the term and holds the text without a vote; the second grants its vote to server
`0` and writes it; then the first writes its older text over it. -/
def lateWriteRun : List (ℕ × Event) :=
  [(1, .timeout 0 [0, 1, 2]), (4, .timer 0 .calm), (1, .timeout 2 [0, 1, 2]), (6, .timer 2 .calm),
    (1, .recvVote 1 ⟨2, 1, 1, 0, 0⟩), (4, .thread 1 0 .calm), (1, .recvVote 1 ⟨0, 1, 1, 0, 0⟩),
    (5, .thread 1 1 .calm), (3, .thread 1 0 .calm)]

/-- Without the condition, the row can be older than the vote that was granted. -/
theorem vote_not_in_row :
    ¬ ∀ σ, Reach Cluster.step (fun _ e => e.inZone [0, 1, 2] = true)
        (Cluster.init [0, 1, 2] (fun _ => ['0'])) σ →
      ∀ s, (∀ t ∈ (σ.node s).all, t.unwritten = none) →
        (σ.node s).server.row.attributes =
          ⟨(σ.node s).server.raft.term, (σ.node s).server.raft.votedfor⟩ := by
  intro h
  have hrun : ((runEvents Cluster.step (Cluster.init [0, 1, 2] (fun _ => ['0']))
      (repeated lateWriteRun)).map (fun σ => (decide (∀ t ∈ (σ.node 1).all, t.unwritten = none),
        (σ.node 1).server.row.attributes, (σ.node 1).server.raft.term,
        (σ.node 1).server.raft.votedfor))) =
      some (true, ⟨1, none⟩, 1, some 0) := by decide
  obtain ⟨σ, hσ, hvote⟩ := Option.map_eq_some_iff.mp hrun
  simp only [Prod.mk.injEq, decide_eq_true_eq] at hvote
  obtain ⟨hquiet, hrow, hterm, hfor⟩ := hvote
  have hzone : ∀ e ∈ repeated lateWriteRun, e.inZone [0, 1, 2] = true := by decide
  have heq := h σ (reach_of_runEvents _ hzone hσ) 1 hquiet
  rw [hrow, hterm, hfor] at heq
  exact absurd heq (by decide)
