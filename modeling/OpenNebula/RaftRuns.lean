/-
# What lasts in a run of a zone (`src/raft/RaftManager.cc`, `src/sql/LogDB.cc`)

The safety theorems compare two servers.  Here two states of one run are compared, the second
reached from the first: no server goes back to an earlier term, a vote for another candidate is
never taken back within its term, and a leader never removes or replaces a record of its log as
long as its term is led (`leader_append_only`).

* `Cluster.Move.term_le`, `Cluster.Move.vote_le` and `Cluster.Move.extends` say what one step of
  the zone keeps.
* The run lemmas are inductions with the worlds of the two invariants.
-/
import OpenNebula.LogMatching

open Transition ReplicatedLog

/-! ## One step -/

section Step

variable {Configs : List ServerId → Prop} {text : ServerId → Sql} {w w' : World}
  {σ σ' : Cluster} {e : Event}

/-- No step of the zone lowers the term of a server. -/
theorem Cluster.Move.term_le (hok : ElectionEvent Configs σ e) (hmove : Cluster.Move w σ e σ' w')
    (s : ServerId) : (σ.node s).server.raft.term ≤ (σ'.node s).server.raft.term := by
  have hput : ∀ {s₀ : ServerId} {n : Node} {sent : List Msg} {obs : List Obs},
      (σ.node s₀).server.raft.term ≤ n.server.raft.term →
      (σ.node s).server.raft.term ≤ ((σ.put s₀ n sent obs).node s).server.raft.term := by
    intro s₀ n sent obs hn
    by_cases hs : s = s₀
    · subst hs
      simpa [Cluster.put] using hn
    · simp [Cluster.put, Function.update_of_ne hs]
  cases hmove with
  | timeout s₀ servers _ _ => exact hput le_rfl
  | timer s₀ env o hstep => exact hput hstep.term_le
  | thread s₀ i env t o _ hstep => exact hput hstep.term_le
  | start e s₀ t pending _ => exact hput le_rfl
  | restart s₀ servers now text =>
    refine hput ?_
    have hrow : (σ.node s₀).server.row.attributes =
        ⟨(σ.node s₀).server.raft.term, (σ.node s₀).server.raft.votedfor⟩ := hok
    show _ ≤ (σ.node s₀).server.row.attributes.term
    rw [hrow]

/-- No step of the zone takes back a vote for another server. -/
theorem Cluster.Move.vote_le (hconf : ZoneConfigs Configs) (h : (election Configs).Holds w σ)
    (hok : ElectionOk Configs σ e) (hmove : Cluster.Move w σ e σ' w') {s c : ServerId} {T : ℕ}
    (hne : s ≠ c) (hb : w.ballot s T = some c) : w'.ballot s T = some c := by
  cases hmove with
  | timer s₀ env o hstep =>
    exact (election_timer hconf h.world (h.server s₀) h.msg (h.timer s₀) hstep).1.ballot hne hb
  | thread s₀ i env t o hi hstep =>
    have hrun := Cluster.running_thread hi env
    have hvote : VoteInTerm (σ.node s₀).server t := hok.vote.elim hrun
    exact (election_thread h.world (h.server s₀) (h.thread s₀ t (List.mem_of_getElem? hi)) hvote
      hstep).1.ballot hne hb
  | _ => exact hb

/-- Every step of the zone extends the ledger: the log that the leader of a term has written only
gets longer. -/
theorem Cluster.Move.extends (hconf : ZoneConfigs Configs) (he : (election Configs).Holds w σ)
    (h : (logs text).Holds w σ) (hok : LogOk Configs σ e) (hmove : Cluster.Move w σ e σ' w') :
    Extends w.ledger w'.ledger := by
  cases hmove with
  | timer s env o hstep =>
    have hrun : σ.running (.timer s env) = some (s, (σ.node s).timer, env) := rfl
    refine (logs_step h.world (he.server s).term (h.server s) (hok.log.elim hrun)
      (hok.found.elim hrun) (h.timer s) ?_ hstep).1.ext
    rintro ⟨hc, -⟩ ⟨T, g, a, i, heq⟩
    have htimer : electionTimer Configs w s (σ.node s).server (.leaderLock T g a i) :=
      heq ▸ he.timer s
    exact electionTimer.won_none hconf he.world (he.server s) htimer hc
  | thread s i env t o hi hstep =>
    have hmem := List.mem_of_getElem? hi
    have hrun := Cluster.running_thread hi env
    refine (logs_step h.world (he.server s).term (h.server s) (hok.log.elim hrun)
      (hok.found.elim hrun) (h.thread s t hmem) ?_ hstep).1.ext
    rintro - ⟨T, g, a, i, rfl⟩
    exact False.elim (he.thread s _ hmem)
  | _ => exact Extends.refl _

end Step

/-! ## Terms and votes -/

/-- **Terms and votes last.**  In a zone with a fixed set of servers, in every run whose steps meet
`ElectionOk`: the term of a server never decreases, and a vote for another server stands as long
as the term does. -/
theorem vote_lasts {zone : List ServerId} (hzone : zone.Nodup) (text : ServerId → Sql)
    {σ σ' : Cluster} (hrun : Reach Cluster.step (ElectionOk (· = zone)) (Cluster.init zone text) σ)
    (hrun' : Reach Cluster.step (ElectionOk (· = zone)) σ σ') (s : ServerId) :
    (σ.node s).server.raft.term ≤ (σ'.node s).server.raft.term ∧
      ∀ c, c ≠ s → (σ.node s).server.raft.votedfor = some c →
        (σ'.node s).server.raft.term = (σ.node s).server.raft.term →
          (σ'.node s).server.raft.votedfor = some c := by
  have hconf := zoneConfigs_fixed hzone
  obtain ⟨w, hw, -⟩ := election_reach hconf (election_init _ zone text) hrun
  obtain ⟨w', hw', hterm, hballot⟩ := hrun'.inv (P := fun σ₁ => ∃ w₁,
      (election (· = zone)).Holds w₁ σ₁ ∧
      (σ.node s).server.raft.term ≤ (σ₁.node s).server.raft.term ∧
      ∀ T c, s ≠ c → w.ballot s T = some c → w₁.ballot s T = some c)
    ⟨w, hw, le_rfl, fun _ _ _ hb => hb⟩ (by
      rintro σ₁ e σ₂ ⟨w₁, h₁, hle, hkeep⟩ hok hstep
      obtain ⟨w₂, hmove⟩ := Cluster.step_cases w₁ hstep
      exact ⟨w₂, (election_move hconf h₁ hok hmove).1, hle.trans (hmove.term_le hok.event s),
        fun T c hne hb => hmove.vote_le hconf h₁ hok hne (hkeep T c hne hb)⟩)
  refine ⟨hterm, ?_⟩
  intro c hne hvote hsame
  rw [← (hw'.server s).vote, hsame]
  refine hballot _ c hne.symm ?_
  rw [(hw.server s).vote]
  exact hvote

/-- Server `1` has voted for server `0`, and votes no more when server `2` asks for the same term. -/
theorem vote_lasts_electionRun :
    ∃ σ σ', Reach Cluster.step (ElectionOk (· = [0, 1, 2]))
        (Cluster.init [0, 1, 2] (fun _ => ['0'])) σ ∧
      Reach Cluster.step (ElectionOk (· = [0, 1, 2])) σ σ' ∧
      (σ.node 1).server.raft.votedfor = some 0 ∧ (σ'.node 1).server.raft.votedfor = some 0 := by
  have hrun : ((runChecked Cluster.step (ElectionOk (· = [0, 1, 2]))
      (Cluster.init [0, 1, 2] (fun _ => ['0'])) (repeated electionRun)).bind fun σ =>
        (runChecked Cluster.step (ElectionOk (· = [0, 1, 2])) σ
          (repeated [(1, .timeout 2 [0, 1, 2]), (4, .timer 2 .calm)])).map fun σ' =>
            ((σ.node 1).server.raft.votedfor, (σ.node 1).server.raft.term,
              (σ'.node 1).server.raft.term)) = some (some 0, 1, 1) := by decide
  obtain ⟨σ, hσ, hrest⟩ := Option.bind_eq_some_iff.mp hrun
  obtain ⟨σ', hσ', heq⟩ := Option.map_eq_some_iff.mp hrest
  simp only [Prod.mk.injEq] at heq
  obtain ⟨hvote, hterm, hterm'⟩ := heq
  have hreach := reach_of_runChecked _ hσ
  have hreach' := reach_of_runChecked _ hσ'
  exact ⟨σ, σ', hreach, hreach', hvote, (vote_lasts (by decide) (fun _ => ['0']) hreach hreach'
    1).2 0 (by decide) hvote (hterm'.trans hterm.symm)⟩

/-! ## The log of a leader -/

/-- From a state with both invariants a run leads to a state with both, in a world that extends
the ledger. -/
theorem logs_extend {Configs : List ServerId → Prop} (hconf : ZoneConfigs Configs)
    {text : ServerId → Sql} {w : World} {σ σ' : Cluster} (he : (election Configs).Holds w σ)
    (hl : (logs text).Holds w σ) (hrun : Reach Cluster.step (LogOk Configs) σ σ') :
    ∃ w', (election Configs).Holds w' σ' ∧ (logs text).Holds w' σ' ∧
      ∀ T, w.ledger.llog T <+: w'.ledger.llog T := by
  refine hrun.inv (P := fun σ' => ∃ w', (election Configs).Holds w' σ' ∧
    (logs text).Holds w' σ' ∧ ∀ T, w.ledger.llog T <+: w'.ledger.llog T)
    ⟨w, he, hl, fun _ => List.prefix_rfl⟩ ?_
  rintro σ₁ e σ₂ ⟨w₁, he₁, hl₁, hpre⟩ hok hstep
  obtain ⟨w₂, hmove⟩ := Cluster.step_cases w₁ hstep
  exact ⟨w₂, (election_move hconf he₁ hok.toElectionOk hmove).1, logs_move hconf he₁ hl₁ hok hmove,
    fun T => (hpre T).trans ((hmove.extends hconf he₁ hl₁ hok).llog_le T)⟩

/-- **A leader only appends.**  In every run whose steps meet `LogOk`: a record of a server that
leads a term is still there, at the same index with the same term and the same command, in every
later state in which that term is led, whatever other servers and threads did in between. -/
theorem leader_append_only {zone : List ServerId} (hzone : zone.Nodup) (text : ServerId → Sql)
    {σ σ' : Cluster} (hrun : Reach Cluster.step (LogOk (· = zone)) (Cluster.init zone text) σ)
    (hrun' : Reach Cluster.step (LogOk (· = zone)) σ σ') {s s' : ServerId}
    (hs : (σ.node s).server.raft.state = .leader) (hs' : (σ'.node s').server.raft.state = .leader)
    (hterm : (σ.node s).server.raft.term = (σ'.node s').server.raft.term) {i : ℕ} (hi : 0 < i)
    {x : Entry Sql} (hx : (σ.node s).server.logdb.entry i = some x) :
    (σ'.node s').server.logdb.entry i = some x := by
  have hconf := zoneConfigs_fixed hzone
  obtain ⟨w, he, hl⟩ := logs_reach hconf zone hrun
  obtain ⟨w', -, hl', hpre⟩ := logs_extend hconf he hl hrun'
  obtain ⟨k, rfl⟩ := Nat.exists_eq_succ_of_ne_zero hi.ne'
  rw [Nat.succ_eq_add_one, (hl.server s).log.succ k, (hl.server s).llog hs] at hx
  rw [Nat.succ_eq_add_one, (hl'.server s').log.succ k, (hl'.server s').llog hs', ← hterm]
  have hlt := (List.getElem?_eq_some_iff.mp hx).1
  rw [← hx]
  obtain ⟨l, hl₂⟩ := hpre (σ.node s).server.raft.term
  rw [← hl₂, List.getElem?_append_left hlt]

/-- Server `0` leads, writes a record, and replicates it. -/
theorem leader_append_only_replicationRun :
    ∃ σ σ', Reach Cluster.step (LogOk (· = [0, 1, 2]))
        (Cluster.init [0, 1, 2] (fun _ => ['0'])) σ ∧
      Reach Cluster.step (LogOk (· = [0, 1, 2])) σ σ' ∧
      (σ.node 0).server.logdb.entry 1 = some (1, ['X']) ∧
      (σ'.node 0).server.logdb.entry 1 = some (1, ['X']) := by
  have hrun : ((runChecked Cluster.step (LogOk (· = [0, 1, 2]))
      (Cluster.init [0, 1, 2] (fun _ => ['0'])) (repeated (electionRun.append
        [(1, .write 0 ['X'] none), (4, .thread 0 0 .calm)]))).bind fun σ =>
        (runChecked Cluster.step (LogOk (· = [0, 1, 2])) σ
          (repeated [(1, .wake 0 1), (4, .thread 0 1 .calm),
            (1, .recvReplicate 1 ⟨0, 1, 0, 1, 1, 1, 0, 0, none, ['X']⟩),
            (8, .thread 1 1 .calm)])).map fun σ' =>
            decide ((σ.node 0).server.raft.state = .leader ∧
              (σ'.node 0).server.raft.state = .leader ∧
              (σ.node 0).server.raft.term = (σ'.node 0).server.raft.term ∧
              (σ.node 0).server.logdb.entry 1 = some (1, ['X']))) = some true := by decide
  obtain ⟨σ, hσ, hrest⟩ := Option.bind_eq_some_iff.mp hrun
  obtain ⟨σ', hσ', heq⟩ := Option.map_eq_some_iff.mp hrest
  obtain ⟨hs, hs', hterm, hx⟩ := of_decide_eq_true heq
  have hreach := reach_of_runChecked _ hσ
  have hreach' := reach_of_runChecked _ hσ'
  exact ⟨σ, σ', hreach, hreach', hx, leader_append_only (by decide) (fun _ => ['0']) hreach
    hreach' hs hs' hterm one_pos hx⟩
