/-
# State machine safety

No two servers apply different records at the same index, in every run in which the code stays
clear of the places of `CommitQuorum.lean` and of one more (`ApplyOk`):

* The heartbeat branch of `ZoneAPI::replicate_log` raises the commit index to the smaller one of
  the leader's commit index and the last index of its own log, without the comparison of the
  previous record that the other branch makes.  When it raises the index, the record there must
  have the term of the sender's record.

What a server may apply is `Safe`: a prefix of its log that is committed.  A committed prefix is
never lost by the server that has it, so every commit index that is kept in a variable, sent in
a message or promised to a writer stays safe.
-/
import OpenNebula.CommitQuorum

open ReplicatedLog Transition

/-! ## The condition on the steps -/

/-- A heartbeat raises the commit index to a record whose term is that of the sender's record. -/
def HeartbeatMatches (σ : Cluster) (s : ServerId) : Thread → Prop
  | .replHeartbeatCommit p _ li => (σ.node s).server.raft.commit < p.leaderCommit →
      ((σ.node s).server.logdb.lookup (min p.leaderCommit li)).map LogRow.term =
        ((σ.node p.leaderId).server.logdb.lookup (min p.leaderCommit li)).map LogRow.term
  | _ => True

instance (σ : Cluster) (s : ServerId) (t : Thread) : Decidable (HeartbeatMatches σ s t) := by
  apply Thread.casesOn (motive := fun t => Decidable (HeartbeatMatches σ s t)) t <;> intros <;>
    dsimp only [HeartbeatMatches] <;> infer_instance

/-- The steps that state machine safety needs. -/
structure ApplyOk (Configs : List ServerId → Prop) (σ : Cluster) (e : Event) : Prop
    extends CommitOk Configs σ e where
  heartbeat : σ.Running e (fun s t _ => HeartbeatMatches σ s t)

instance (Configs : List ServerId → Prop) [DecidablePred Configs] (σ : Cluster) (e : Event) :
    Decidable (ApplyOk Configs σ e) :=
  decidable_of_iff (CommitOk Configs σ e ∧ σ.Running e (fun s t _ => HeartbeatMatches σ s t))
    ⟨fun h => ⟨h.1, h.2⟩, fun h => ⟨h.toCommitOk, h.heartbeat⟩⟩

/-! ## The invariant -/

section Invariant

variable (Configs : List ServerId → Prop)

/-- The records up to `i` in the log of the server are committed. -/
def Safe (w : World) (s : ServerId) (i : ℕ) : Prop :=
  i ≤ (w.ledger.log s).length ∧
    Committed (Majority Configs) w.ledger (w.ledger.term s) ((w.ledger.log s).take i)

/-- The commit index of a request was safe for its sender in the term it was sent in. -/
def SafeRequest (w : World) (p : ReplicateParams) : Prop :=
  Safe Configs w p.leaderId p.leaderCommit ∧
    Committed (Majority Configs) w.ledger p.leaderTerm
      ((w.ledger.log p.leaderId).take p.leaderCommit)

/-- A writer waits for the request `ticket` of the record at `i`. -/
structure Awaits (w : World) (s : ServerId) (v : Server) (ticket i : ℕ) : Prop where
  fresh : ticket < v.tickets
  index : ∀ j rr, v.raft.requests.requests.lookup j = some (some rr) → rr.ticket = ticket → j = i
  done : (ticket, true) ∈ v.raft.requests.answers → Safe Configs w s i

def applyMsg (w : World) : Msg → Prop
  | .replicate p => SafeRequest Configs w p
  | _ => True

def applyThread (w : World) (s : ServerId) (v : Server) : Thread → Prop
  | .updateRaftState _ k => applyThread w s v k
  | .followerSetup _ k => applyThread w s v k
  | .followerLock _ a k => Safe Configs w s a ∧ applyThread w s v k
  | .leaderLock _ _ a _ => Safe Configs w s a
  | .reply m => applyMsg Configs w m
  | .replTerm p | .replCandidate p _ | .replHeartbeat p _ | .replHeartbeatCommit p _ _
  | .replPrev p _ | .replRecord p _ | .replDelete p _ | .replInsert p _ | .replCommit p _ =>
    SafeRequest Configs w p
  | .replApply p _ i => SafeRequest Configs w p ∧ Safe Configs w s i
  | .waitResult ticket i _ => Awaits Configs w s v ticket i
  | .checkLeader i true _ => Safe Configs w s i
  | .applyRecords i _ => Safe Configs w s i
  | _ => True

/-- What a server has applied and will apply is safe, and the requests of its writers have
different tickets. -/
structure ApplyServer (w : World) (s : ServerId) (v : Server) : Prop where
  commit : Safe Configs w s v.raft.commit
  applied : v.logdb.AppliedIn (Safe Configs w s)
  requests : ∀ j rr, v.raft.requests.requests.lookup j = some (some rr) → rr.ticket < v.tickets
  answers : ∀ k b, (k, b) ∈ v.raft.requests.answers → k < v.tickets

/-- A record that was applied is part of what is committed. -/
def applyObs (w : World) : Obs → Prop
  | .applied _ i t x => 0 < i ∧ ∃ U P, Committed (Majority Configs) w.ledger U P ∧
      P[i - 1]? = some (t, x)
  | _ => True

/-- The invariant of state machine safety. -/
def applies : Assertions where
  world := fun _ => True
  server := ApplyServer Configs
  timer := applyThread Configs
  thread := applyThread Configs
  msg := applyMsg Configs
  obs := applyObs Configs

end Invariant

/-! ## Stability -/

/-- The step from `w` to `w'` keeps the records that are safe. -/
structure Keeps (Configs : List ServerId → Prop) (w w' : World) : Prop where
  ext : Extends w.ledger w'.ledger
  safe : ∀ f i, Safe Configs w f i →
    i ≤ (w'.ledger.log f).length ∧ (w'.ledger.log f).take i = (w.ledger.log f).take i

/-- How the requests of the writers and the answers to them change in a step; a request is
answered positively for an index that meets `ok`. -/
structure Answering (v v' : Server) (ok : ℕ → Prop) : Prop where
  tickets_le : v.tickets ≤ v'.tickets
  requests : ∀ j rr, v'.raft.requests.requests.lookup j = some (some rr) →
    (rr.ticket = v.tickets ∧ v.tickets < v'.tickets) ∨
      ∃ rr₀, v.raft.requests.requests.lookup j = some (some rr₀) ∧ rr₀.ticket = rr.ticket
  answers : ∀ k b, (k, b) ∈ v'.raft.requests.answers → (k, b) ∈ v.raft.requests.answers ∨
    (k = v.tickets ∧ v.tickets < v'.tickets) ∨
      ∃ j rr, v.raft.requests.requests.lookup j = some (some rr) ∧ rr.ticket = k ∧
        (b = true → ok j)

section Stability

variable {Configs : List ServerId → Prop} {w w' : World} {s : ServerId} {v v' : Server}

theorem Keeps.refl (Configs : List ServerId → Prop) (w : World) : Keeps Configs w w :=
  ⟨Extends.refl _, fun _ _ h => ⟨h.1, rfl⟩⟩

theorem Safe.mono (hk : Keeps Configs w w') {f : ServerId} {i : ℕ} (h : Safe Configs w f i) :
    Safe Configs w' f i := by
  obtain ⟨hle, heq⟩ := hk.safe f i h
  refine ⟨hle, ?_⟩
  rw [heq]
  exact h.2.mono hk.ext (hk.ext.term_le f)

/-- What is below a safe index is safe. -/
theorem Safe.of_le {i j : ℕ} (h : Safe Configs w s i) (hj : j ≤ i) : Safe Configs w s j :=
  ⟨hj.trans h.1, h.2.of_isPrefix (List.take_prefix_take_left hj)⟩

theorem safe_zero (Configs : List ServerId → Prop) (w : World) (s : ServerId) :
    Safe Configs w s 0 :=
  ⟨Nat.zero_le _, Or.inl rfl⟩

theorem SafeRequest.mono (hk : Keeps Configs w w') {p : ReplicateParams}
    (h : SafeRequest Configs w p) : SafeRequest Configs w' p := by
  refine ⟨h.1.mono hk, ?_⟩
  rw [(hk.safe _ _ h.1).2]
  exact h.2.mono hk.ext le_rfl

theorem Answering.of_eq {ok : ℕ → Prop} (ht : v'.tickets = v.tickets)
    (hr : v'.raft.requests = v.raft.requests) : Answering v v' ok where
  tickets_le := ht.ge
  requests := by
    rw [hr]
    exact fun j rr h => Or.inr ⟨rr, h, rfl⟩
  answers := by
    rw [hr]
    exact fun k b h => Or.inl h

theorem Awaits.mono (hk : Keeps Configs w w') (ha : Answering v v' (Safe Configs w' s))
    {ticket i : ℕ} (h : Awaits Configs w s v ticket i) : Awaits Configs w' s v' ticket i where
  fresh := h.fresh.trans_le ha.tickets_le
  index := by
    intro j rr hrr htick
    have hlt := h.fresh
    rcases ha.requests j rr hrr with ⟨heq, -⟩ | ⟨rr₀, hrr₀, heq⟩
    · omega
    · exact h.index j rr₀ hrr₀ (heq.trans htick)
  done := by
    intro hmem
    have hlt := h.fresh
    rcases ha.answers ticket true hmem with hold | ⟨heq, -⟩ | ⟨j, rr, hrr, htick, hok⟩
    · exact (h.done hold).mono hk
    · omega
    · rw [← h.index j rr hrr htick]
      exact hok rfl

theorem applyMsg_mono (hk : Keeps Configs w w') {m : Msg} (h : applyMsg Configs w m) :
    applyMsg Configs w' m := by
  cases m with
  | replicate p => exact SafeRequest.mono hk h
  | _ => trivial

theorem applyThread_mono (hk : Keeps Configs w w') (ha : Answering v v' (Safe Configs w' s))
    (t : Thread) (h : applyThread Configs w s v t) : applyThread Configs w' s v' t := by
  induction t with
  | updateRaftState x k ih => exact ih h
  | followerSetup t k ih => exact ih h
  | followerLock t a k ih => exact ⟨h.1.mono hk, ih h.2⟩
  | leaderLock t g a i => exact Safe.mono hk h
  | reply m => exact applyMsg_mono hk h
  | replTerm p => exact SafeRequest.mono hk h
  | replCandidate p c => exact SafeRequest.mono hk h
  | replHeartbeat p c => exact SafeRequest.mono hk h
  | replHeartbeatCommit p c li => exact SafeRequest.mono hk h
  | replPrev p c => exact SafeRequest.mono hk h
  | replRecord p c => exact SafeRequest.mono hk h
  | replDelete p c => exact SafeRequest.mono hk h
  | replInsert p c => exact SafeRequest.mono hk h
  | replCommit p c => exact SafeRequest.mono hk h
  | replApply p c i => exact ⟨h.1.mono hk, h.2.mono hk⟩
  | waitResult ticket i back => exact Awaits.mono hk ha h
  | checkLeader i result back =>
    cases result with
    | true => exact Safe.mono hk h
    | false => trivial
  | applyRecords i back => exact Safe.mono hk h
  | _ => trivial

theorem LogDB.AppliedIn.mono {l : LogDB} {A A' : ℕ → Prop} (h : l.AppliedIn A)
    (himp : ∀ i, A i → A' i) : l.AppliedIn A' :=
  ⟨fun r hr happ => himp _ (h.rows r hr happ), himp _ h.last⟩

theorem applyObs_mono (hk : Keeps Configs w w') {ob : Obs} (h : applyObs Configs w ob) :
    applyObs Configs w' ob := by
  cases ob with
  | commit f T i record => trivial
  | applied f i t x =>
    obtain ⟨hpos, U, P, hP, hx⟩ := h
    exact ⟨hpos, U, P, hP.mono hk.ext le_rfl, hx⟩

theorem applies_frame (hk : Keeps Configs w w') (ha : Answering v v' (Safe Configs w' s)) :
    (applies Configs).Frame w w' s v v' where
  server := fun _ _ _ hu => ⟨hu.commit.mono hk, hu.applied.mono (fun _ => Safe.mono hk),
    hu.requests, hu.answers⟩
  timer := fun _ _ t _ ht => applyThread_mono hk (.of_eq rfl rfl) t ht
  thread := fun _ _ t _ ht => applyThread_mono hk (.of_eq rfl rfl) t ht
  same := fun t ht => applyThread_mono hk ha t ht
  msg := fun _ hm => applyMsg_mono hk hm
  obs := fun _ hob => applyObs_mono hk hob

end Stability

/-! ## Requests and answers -/

namespace RaftManager

/-- `replicate_log` answers or registers the request it is called for, and no other. -/
theorem replicateLog_requests (r : RaftManager) (ticket i : ℕ) :
    (∀ j rr, (r.replicateLog ticket i).1.requests.requests.lookup j = some (some rr) →
        (j = i ∧ rr.ticket = ticket) ∨ r.requests.requests.lookup j = some (some rr)) ∧
      (∀ k b, (k, b) ∈ (r.replicateLog ticket i).1.requests.answers →
        (k, b) ∈ r.requests.answers ∨
          (k = ticket ∧ (b = true → (r.replicateLog ticket i).2 = some i))) ∧
      (r.replicateLog ticket i).1.commit = (r.replicateLog ticket i).2.getD r.commit := by
  have herase : ∀ {m : ReplicaRequestMap} {j rr},
      (m.remove i).requests.lookup j = some (some rr) → m.requests.lookup j = some (some rr) := by
    intro m j rr h
    by_cases hj : j = i
    · rw [ReplicaRequestMap.remove, hj, AList.lookup_erase] at h
      exact absurd h (by simp)
    · rwa [ReplicaRequestMap.remove, AList.lookup_erase_ne hj] at h
  unfold RaftManager.replicateLog
  split
  · refine ⟨fun j rr h => Or.inr (herase h), ?_, rfl⟩
    intro k b hmem
    rcases List.mem_cons.mp hmem with heq | hmem
    · rw [Prod.mk.injEq] at heq
      exact Or.inr ⟨heq.1, fun hb => absurd hb (by simp [heq.2])⟩
    · exact Or.inl hmem
  · dsimp only
    split
    · refine ⟨fun j rr h => Or.inr (herase h), ?_, rfl⟩
      intro k b hmem
      rcases List.mem_cons.mp hmem with heq | hmem
      · rw [Prod.mk.injEq] at heq
        exact Or.inr ⟨heq.1, fun _ => rfl⟩
      · exact Or.inl hmem
    · refine ⟨?_, fun k b hmem => Or.inl hmem, rfl⟩
      intro j rr h
      by_cases hj : j = i
      · rw [ReplicaRequestMap.set, hj, AList.lookup_insert, Option.some.injEq,
          Option.some.injEq] at h
        exact Or.inl ⟨hj, by rw [← h]⟩
      · rw [ReplicaRequestMap.set, AList.lookup_insert_ne hj] at h
        exact Or.inr h

/-- `replicate_success` answers the request for which it sets the commit index, and no other. -/
theorem replicateSuccess_requests (r : RaftManager) (f : ServerId) (i : ℕ) :
    (∀ j rr, (r.replicateSuccess f i).1.requests.requests.lookup j = some (some rr) →
        ∃ rr₀, r.requests.requests.lookup j = some (some rr₀) ∧ rr₀.ticket = rr.ticket) ∧
      (∀ k b, (k, b) ∈ (r.replicateSuccess f i).1.requests.answers →
        (k, b) ∈ r.requests.answers ∨ ∃ j rr, r.requests.requests.lookup j = some (some rr) ∧
          rr.ticket = k ∧ (r.replicateSuccess f i).2 = some j) ∧
      (r.replicateSuccess f i).1.commit = (r.replicateSuccess f i).2.getD r.commit := by
  cases hn : r.next.lookup f with
  | none =>
    rw [replicateSuccess_none (Or.inl hn)]
    exact ⟨fun j rr h => ⟨rr, h, rfl⟩, fun k b h => Or.inl h, rfl⟩
  | some n =>
  cases hm : r.matchIndex.lookup f with
  | none =>
    rw [replicateSuccess_none (Or.inr hm)]
    exact ⟨fun j rr h => ⟨rr, h, rfl⟩, fun k b h => Or.inl h, rfl⟩
  | some m =>
  obtain ⟨-, -, hreq, hcommit, hres⟩ := replicateSuccess_some hn hm i
  rw [hreq, hcommit, hres]
  rcases addReplica_cases r.requests n with
    ⟨rr, hrr, -, hmap, hzero, hans⟩ | ⟨rr, hrr, -, hmap, hzero, hans⟩ | ⟨-, hmap, hzero⟩
  · rw [hmap, hans, if_pos hzero, if_pos hzero]
    refine ⟨?_, ?_, rfl⟩
    · intro j rr' h
      by_cases hj : j = n
      · rw [hj, AList.lookup_erase] at h
        exact absurd h (by simp)
      · rw [AList.lookup_erase_ne hj] at h
        exact ⟨rr', h, rfl⟩
    · intro k b hmem
      rcases List.mem_cons.mp hmem with heq | hmem
      · rw [Prod.mk.injEq] at heq
        exact Or.inr ⟨n, rr, hrr, heq.1.symm, rfl⟩
      · exact Or.inl hmem
  · rw [hmap, hans, if_neg hzero, if_neg hzero]
    refine ⟨?_, fun k b hmem => Or.inl hmem, rfl⟩
    intro j rr' h
    by_cases hj : j = n
    · rw [hj, AList.lookup_insert, Option.some.injEq, Option.some.injEq] at h
      exact ⟨rr, hj ▸ hrr, by rw [← h]; rfl⟩
    · rw [AList.lookup_insert_ne hj] at h
      exact ⟨rr', h, rfl⟩
  · rw [hmap, if_neg hzero, if_neg hzero]
    exact ⟨fun j rr' h => ⟨rr', h, rfl⟩, fun k b hmem => Or.inl hmem, rfl⟩

/-- `ReplicaRequestMap::clear` answers every request negatively. -/
theorem clear_answers (m : ReplicaRequestMap) (k : ℕ) (b : Bool) (h : (k, b) ∈ m.clear.answers) :
    (k, b) ∈ m.answers ∨
      (b = false ∧ ∃ j rr, m.requests.lookup j = some (some rr) ∧ rr.ticket = k) := by
  rcases List.mem_append.mp h with h | h
  · obtain ⟨⟨j, q⟩, hmem, heq⟩ := List.mem_filterMap.mp h
    cases q with
    | none => exact absurd heq (by simp)
    | some rr =>
      rw [Option.map_some, Option.some.injEq, Prod.mk.injEq] at heq
      exact Or.inr ⟨heq.2.symm, j, rr, AList.mem_lookup_iff.mpr hmem, heq.1⟩
  · exact Or.inl h

/-- `update_commit` returns the commit index that it leaves. -/
theorem updateCommit_snd (r : RaftManager) (leaderCommit i : ℕ) :
    (r.updateCommit leaderCommit i).2 =
      if r.commit < leaderCommit then min leaderCommit i else r.commit := by
  unfold updateCommit
  dsimp only
  split
  · split <;> omega
  · rfl

end RaftManager

/-! ## What is committed is kept -/

section Keep

variable {Configs : List ServerId → Prop} {text : ServerId → Sql} {w w' : World} {s : ServerId}
  {v : Server} {net : List Msg} {env : Env} {t : Thread} {o : Outcome}

/-- The log of the leader of its term has everything that is safe for a server. -/
theorem Safe.isPrefix_llog (hconf : ZoneConfigs Configs) (hs : Sound (Majority Configs) w.ledger)
    {i T : ℕ} (h : Safe Configs w s i) (hT : w.ledger.term s ≤ T) (hwon : w.ledger.won T ≠ none) :
    (w.ledger.log s).take i <+: w.ledger.llog T :=
  hs.committed_isPrefix_llog hconf.meet h.2 hT hwon

/-- **No step loses a record that is safe.** -/
theorem keeps_of_step (hconf : ZoneConfigs Configs) (hs : Sound (Majority Configs) w.ledger)
    (hterm : w.ledger.term s = v.raft.term) (hl : v.logdb.Holds (text s) (w.ledger.log s))
    (hin : HandlerInTerm v t) (hlt : logThread w v.raft.term t) (hc : commitThread w s t)
    (hout : CommitStep Configs w w' s v env t o) : Keeps Configs w w' := by
  refine ⟨hout.ledger.ext, ?_⟩
  intro f i hsafe
  by_cases hf : f = s
  · subst hf
    have hle := hsafe.1
    have hlog := hout.log
    generalize w'.ledger.log f = l' at hlog
    cases hlog with
    | keep _ => exact ⟨hle, rfl⟩
    | append _ _ _ _ =>
      rw [List.length_append, List.take_append_of_le_length hle]
      exact ⟨by omega, rfl⟩
    | insert _ _ _ _ _ =>
      rw [List.length_append, List.take_append_of_le_length hle]
      exact ⟨by omega, rfl⟩
    | @truncate p c _ _ _ _ _ =>
      -- a safe record is in the leader's log, so it is not in conflict with it
      have hlt' : i < p.index := by
        by_contra hge
        obtain ⟨hwon, hrec⟩ := hc.2 hlt.2.2
        have hpre := hsafe.isPrefix_llog hconf hs (by rw [hterm, hin.1]) hwon
        have heq := List.prefix_iff_eq_take.mp hpre
        rw [List.length_take, Nat.min_eq_left hle] at heq
        have hat := termAt_of_take_eq heq (Nat.le_of_not_lt hge)
        obtain ⟨r, hr, -, hrt, -⟩ := hl.lookup_of_le (i := p.index) (by omega)
        apply hin.2
        rw [hr, Option.map_some, hrt, hat, hrec.term_eq]
      rw [List.length_take, List.take_take]
      exact ⟨by omega, by rw [Nat.min_eq_left (by omega)]⟩
  · rw [hout.ledger.log_ne f hf]
    exact ⟨hsafe.1, rfl⟩

/-- The commit index of a leader is safe when it is set. -/
theorem safe_of_commit (hterm : w.ledger.term s = v.raft.term) (hserver : LogServer text w s v)
    (hc : CommitServer Configs w s v) (hc' : RaftCounts Configs w s o.server.raft)
    (ht : commitThread w s t) (hcounts : CountsRight Configs v t)
    (hstep : ThreadStep s v net env t o) {f : ServerId} {T i : ℕ} {record : Option (ℕ × Sql)}
    (hob : Obs.commit f T i record ∈ o.obs) : Safe Configs w s i := by
  obtain ⟨rfl, rfl, hl, hpos, hown, -, Q, hQ⟩ :=
    quorum_of_commit hserver hc hc' ht hcounts hstep hob
  obtain ⟨hle, -, hx⟩ := ownRecord_entry hserver hl hpos hown
  refine ⟨hle, Or.inr ⟨v.raft.term, i - 1, hterm.ge, ⟨hx, Q, hQ.majority, hQ.acked⟩, ?_⟩⟩
  rw [Nat.sub_add_cancel hpos, hserver.llog hl]

/-- A handler that got a record raises the commit index to a safe one: what it acknowledged in
the leader's term is still there as far as it is committed. -/
theorem safe_replCommit (hconf : ZoneConfigs Configs) (hs : Sound (Majority Configs) w.ledger)
    (hterm : w.ledger.term s = v.raft.term) {p : ReplicateParams}
    (hdst : p.dst = s) (hacked : Acked w p) (hreq : SafeRequest Configs w p)
    (hle : p.leaderTerm ≤ v.raft.term) :
    Safe Configs w s (min p.leaderCommit p.index) := by
  rcases Nat.eq_zero_or_pos p.index with h0 | hpos
  · rw [h0, Nat.min_zero]
    exact safe_zero Configs w s
  · have hacc := hacked hpos
    rw [hdst] at hacc
    obtain ⟨hwon, -, -, hkept⟩ := hs.acc_spec s _ _ hacc
    have hpre := hs.committed_isPrefix_llog hconf.meet hreq.2 le_rfl hwon
    have hlen : ((w.ledger.log p.leaderId).take p.leaderCommit).length = p.leaderCommit := by
      rw [List.length_take, Nat.min_eq_left hreq.1.1]
    -- the leader's log up to the new commit index is committed
    have hcommitted : Committed (Majority Configs) w.ledger p.leaderTerm
        ((w.ledger.llog p.leaderTerm).take (min p.leaderCommit p.index)) := by
      refine hreq.2.of_isPrefix (List.prefix_of_prefix_length_le (List.take_prefix _ _) hpre ?_)
      rw [hlen, List.length_take]
      omega
    have hheld : (w.ledger.llog p.leaderTerm).take (min p.leaderCommit p.index) <+:
        w.ledger.log s := by
      rcases hkept (min p.leaderCommit p.index) (Nat.min_le_right _ _) with hheld | hover
      · exact hheld
      · obtain ⟨T', hlt, -, hwon', hnot⟩ := hover
        exact absurd (hs.committed_isPrefix_llog hconf.meet hcommitted hlt.le hwon') hnot
    have hlenL : min p.leaderCommit p.index ≤ (w.ledger.llog p.leaderTerm).length := by
      have := hpre.length_le
      omega
    have heq := List.prefix_iff_eq_take.mp hheld
    rw [List.length_take, Nat.min_eq_left hlenL] at heq
    refine ⟨?_, ?_⟩
    · have := hheld.length_le
      rwa [List.length_take, Nat.min_eq_left hlenL] at this
    · rw [← heq]
      exact hcommitted.mono (Extends.refl _) (hterm ▸ hle)

/-- A heartbeat raises the commit index to a safe one if the record there is the sender's. -/
theorem safe_heartbeat {σ : Cluster} (hs : Sound (Majority Configs) w.ledger)
    (hl : ∀ f, (σ.node f).server.logdb.Holds (text f) (w.ledger.log f))
    (hterm : w.ledger.term s = v.raft.term) {p : ReplicateParams} {li : ℕ}
    (hreq : SafeRequest Configs w p) (hle : p.leaderTerm ≤ v.raft.term)
    (hmatch : ((σ.node s).server.logdb.lookup (min p.leaderCommit li)).map LogRow.term =
      ((σ.node p.leaderId).server.logdb.lookup (min p.leaderCommit li)).map LogRow.term) :
    Safe Configs w s (min p.leaderCommit li) := by
  have hlen : min p.leaderCommit li ≤ (w.ledger.log p.leaderId).length := by
    have := hreq.1.1
    omega
  obtain ⟨r, hr, -, hrt, -⟩ := (hl p.leaderId).lookup_of_le hlen
  have hlen' : min p.leaderCommit li ≤ (w.ledger.log s).length := by
    by_contra hgt
    rw [(hl s).lookup_eq_none.mpr (Nat.lt_of_not_le hgt), hr] at hmatch
    exact absurd hmatch (by simp)
  obtain ⟨r', hr', -, hrt', -⟩ := (hl s).lookup_of_le hlen'
  rw [hr, hr', Option.map_some, Option.map_some, Option.some.injEq, hrt, hrt'] at hmatch
  have htake := (hs.log_chained s).take_eq_of_termAt (hs.log_chained p.leaderId) hlen' hlen hmatch
  refine ⟨hlen', ?_⟩
  rw [htake]
  refine Committed.mono (Extends.refl _) (hterm ▸ hle) (hreq.2.of_isPrefix ?_)
  exact List.take_prefix_take_left (Nat.min_le_left _ _)

end Keep

/-! ## Every step keeps the invariant -/

section Step

variable {Configs : List ServerId → Prop} {text : ServerId → Sql} {w w' : World}
  {σ σ' : Cluster} {s : ServerId} {v : Server} {net : List Msg} {env : Env} {t t' : Thread}
  {o : Outcome} {e : Event}

/-- How a step changes the requests; `hcommit` says that the commit indexes it sets are safe. -/
theorem answering_step (hcommit : ∀ f T i record, Obs.commit f T i record ∈ o.obs →
      Safe Configs w' s i) (h : ThreadStep s v net env t o) :
    Answering v o.server (Safe Configs w' s) := by
  -- stepping down or becoming leader drops all requests
  have hclear : o.server.tickets = v.tickets →
      o.server.raft.requests = v.raft.requests.clear → Answering v o.server (Safe Configs w' s) := by
    intro ht hr
    refine ⟨ht.ge, ?_, ?_⟩
    · intro j rr hrr
      rw [hr] at hrr
      have hnone : (∅ : AList (fun _ : ℕ => Option ReplicaRequest)).lookup j = some (some rr) := hrr
      rw [AList.lookup_empty] at hnone
      exact absurd hnone (by simp)
    · intro k b hmem
      rw [hr] at hmem
      rcases RaftManager.clear_answers _ k b hmem with hold | ⟨hb, j, rr, hrr, htick⟩
      · exact Or.inl hold
      · exact Or.inr (Or.inr ⟨j, rr, hrr, htick, fun htrue => absurd htrue (by simp [hb])⟩)
  cases h with
  | followerNewTerm t a k _ => exact hclear rfl rfl
  | followerSameTerm t a k _ => exact hclear rfl rfl
  | requestVote servers r x hr =>
    obtain ⟨-, -, rfl⟩ := requestVote_some hr
    exact .of_eq rfl rfl
  | voteLost servers t r x hr =>
    obtain ⟨-, -, rfl⟩ := resetVotedfor_some hr
    exact .of_eq rfl rfl
  | voteCast p t li lt r x _ hr =>
    obtain ⟨-, rfl, -⟩ := updateVotedfor_some hr
    exact .of_eq rfl rfl
  | leaderLock t granted applied index r i hr =>
    refine hclear rfl ?_
    unfold RaftManager.leader at hr
    split at hr
    · exact absurd hr (by simp)
    · rw [Option.some.injEq, Prod.mk.injEq] at hr
      rw [← hr.1]
  | replicaSuccessLock f e i p =>
    obtain ⟨hreq, hans, -⟩ := v.raft.replicateSuccess_requests f i
    refine ⟨le_rfl, fun j rr hrr => Or.inr (hreq j rr hrr), ?_⟩
    intro k b hmem
    rcases hans k b hmem with hold | ⟨j, rr, hrr, htick, hres⟩
    · exact Or.inl hold
    · refine Or.inr (Or.inr ⟨j, rr, hrr, htick, fun _ => ?_⟩)
      refine hcommit s v.raft.term j (v.logdb.entry j) (List.mem_map.mpr ⟨j, ?_, rfl⟩)
      rw [hres]
      simp
  | replicaFailure f e p => exact .of_eq rfl (v.raft.replicateFailure_cases f).1
  | writeInsert sql fed c db i hi =>
    refine ⟨le_rfl, fun j rr hrr =>
      Or.inr ⟨rr, RaftManager.lookup_allocate _ i j rr hrr, rfl⟩, ?_⟩
    intro k b hmem
    refine Or.inl ?_
    have hans : (v.raft.requests.allocate i).answers = v.raft.requests.answers := by
      unfold ReplicaRequestMap.allocate
      split <;> rfl
    have hmem' : (k, b) ∈ (v.raft.requests.allocate i).answers := hmem
    rwa [hans] at hmem'
  | register i back =>
    obtain ⟨hreq, hans, -⟩ := v.raft.replicateLog_requests v.tickets i
    refine ⟨Nat.le_succ _, ?_, ?_⟩
    · intro j rr hrr
      rcases hreq j rr hrr with ⟨-, heq⟩ | hold
      · exact Or.inl ⟨heq, Nat.lt_succ_self _⟩
      · exact Or.inr ⟨rr, hold, rfl⟩
    · intro k b hmem
      rcases hans k b hmem with hold | ⟨heq, -⟩
      · exact Or.inl hold
      · exact Or.inr (Or.inl ⟨heq, Nat.lt_succ_self _⟩)
  | addServerLock f i =>
    refine .of_eq rfl ?_
    show (v.raft.addServer f i).requests = _
    unfold RaftManager.addServer
    split <;> rfl
  | resetIndexLock f i =>
    refine .of_eq rfl ?_
    rcases v.raft.resetIndex_cases f i with heq | ⟨-, heq⟩
    · show (v.raft.resetIndex f i).requests = _
      rw [heq]
    · show (v.raft.resetIndex f i).requests = _
      rw [heq]
  | _ => exact .of_eq rfl rfl

/-- The commit index that a step leaves is safe. -/
theorem safe_commit_step (hcommit : ∀ f T i record, Obs.commit f T i record ∈ o.obs →
      Safe Configs w s i)
    (hbeat : ∀ p c li, t = .replHeartbeatCommit p c li → v.raft.commit < p.leaderCommit →
      Safe Configs w s (min p.leaderCommit li))
    (hrepl : ∀ p c, t = .replCommit p c → Safe Configs w s (min p.leaderCommit p.index))
    (hserver : Safe Configs w s v.raft.commit) (ht : applyThread Configs w s v t)
    (h : ThreadStep s v net env t o) : Safe Configs w s o.server.raft.commit := by
  -- the commit index is set together with the observation, or it stays
  have hgetD : ∀ {c : Option ℕ}, (∀ i, c = some i → Safe Configs w s i) →
      Safe Configs w s (c.getD v.raft.commit) := by
    intro c hc
    cases c with
    | none => exact hserver
    | some i => exact hc i rfl
  cases h with
  | followerNewTerm t a k _ => exact ht.1
  | followerSameTerm t a k _ => exact ht.1
  | requestVote servers r x hr =>
    obtain ⟨-, -, rfl⟩ := requestVote_some hr
    exact hserver
  | voteLost servers t r x hr =>
    obtain ⟨-, -, rfl⟩ := resetVotedfor_some hr
    exact hserver
  | voteCast p t li lt r x _ hr =>
    obtain ⟨-, rfl, -⟩ := updateVotedfor_some hr
    exact hserver
  | leaderLock t granted applied index r i hr =>
    unfold RaftManager.leader at hr
    split at hr
    · exact absurd hr (by simp)
    · rw [Option.some.injEq, Prod.mk.injEq] at hr
      rw [← hr.1]
      exact ht
  | heartbeatCommit p c li =>
    show Safe Configs w s (v.raft.updateCommit p.leaderCommit li).2
    rw [RaftManager.updateCommit_snd]
    split
    · rename_i hlt
      exact hbeat p c li rfl hlt
    · exact hserver
  | replCommit p c =>
    show Safe Configs w s (v.raft.updateCommit p.leaderCommit p.index).2
    rw [RaftManager.updateCommit_snd]
    split
    · exact hrepl p c rfl
    · exact hserver
  | replicaSuccessLock f e i p =>
    show Safe Configs w s (v.raft.replicateSuccess f i).1.commit
    rw [(v.raft.replicateSuccess_requests f i).2.2]
    refine hgetD ?_
    intro j hj
    refine hcommit s v.raft.term j (v.logdb.entry j) (List.mem_map.mpr ⟨j, ?_, rfl⟩)
    rw [hj]
    simp
  | replicaFailure f e p =>
    show Safe Configs w s (v.raft.replicateFailure f).commit
    rw [(v.raft.replicateFailure_cases f).2.2.1]
    exact hserver
  | register i back =>
    show Safe Configs w s (v.raft.replicateLog v.tickets i).1.commit
    rw [(v.raft.replicateLog_requests v.tickets i).2.2]
    refine hgetD ?_
    intro j hj
    refine hcommit s v.raft.term j (v.logdb.entry j) (List.mem_map.mpr ⟨j, ?_, rfl⟩)
    rw [hj]
    simp
  | addServerLock f i =>
    show Safe Configs w s (v.raft.addServer f i).commit
    unfold RaftManager.addServer
    split <;> exact hserver
  | resetIndexLock f i =>
    show Safe Configs w s (v.raft.resetIndex f i).commit
    unfold RaftManager.resetIndex
    split <;> exact hserver
  | _ => exact hserver

theorem applyThread_dispatch {p : ReplicateParams} (c : ℕ) (h : SafeRequest Configs w p) :
    applyThread Configs w s v (Thread.replDispatch p c) := by
  unfold Thread.replDispatch
  split
  · exact h
  · split
    · trivial
    · split <;> exact h

theorem applyThread_voteNext {servers todo granted : List ServerId} {c n li lt : ℕ} :
    applyThread Configs w s v (Thread.voteNext servers c n li lt todo granted) := by
  unfold Thread.voteNext
  split
  · trivial
  · split <;> trivial

theorem applyThread_goto (ht : applyThread Configs w s v t) (h : Goto s v net env t t') :
    applyThread Configs w s v t' := by
  cases h with
  | replNewTerm _ => exact ht
  | replSameTerm _ => exact ht
  | replCandidate _ => exact applyThread_dispatch _ ht
  | replNotCandidate _ => exact applyThread_dispatch _ ht
  | replHeartbeat => exact ht
  | replPrev _ _ => exact ht
  | replMissing _ => exact ht
  | replConflict _ _ => exact ht
  | @waitResult ticket i back result hres =>
    cases result with
    | false => trivial
    | true =>
      obtain ⟨l₁, l₂, heq, -⟩ := List.lookup_eq_some_iff.mp hres
      refine ht.done ?_
      rw [heq]
      simp
  | checkLeader => exact ht
  | voteAlone => exact applyThread_voteNext
  | voteSkip => exact applyThread_voteNext
  | voteDenied => exact applyThread_voteNext
  | voteGranted _ => exact applyThread_voteNext
  | _ => trivial

/-- A request carries the commit index of its sender, in the term of its sender. -/
theorem safeRequest_send (hterm : w.ledger.term s = v.raft.term)
    (hserver : Safe Configs w s v.raft.commit) {p : ReplicateParams} (hid : p.leaderId = s)
    (hcommit : p.leaderCommit = v.raft.commit) (hpt : p.leaderTerm = v.raft.term) :
    SafeRequest Configs w p := by
  rw [SafeRequest, hid, hcommit, hpt, ← hterm]
  exact ⟨hserver, hserver.2⟩

/-- What a thread is about to apply is safe. -/
theorem safe_of_applies (ht : applyThread Configs w s v t) (i : ℕ) (hi : t.Applies i) :
    Safe Configs w s i := by
  cases t with
  | replApply p c j => exact ht.2.of_le hi
  | applyRecords j back => exact Safe.of_le ht hi
  | _ => exact False.elim hi

/-- The records that a step applies are committed.  What is safe is in the log, so every query
of `apply_log_records` finds its record. -/
theorem applyObs_step (hl : v.logdb.Holds (text s) (w.ledger.log s))
    (ht : applyThread Configs w s v t) (h : ThreadStep s v net env t o) :
    ∀ ob ∈ o.obs, applyObs Configs w ob := by
  have hrecords : ∀ {c : ℕ}, Safe Configs w s c →
      ∀ ob ∈ (v.logdb.applyLogRecords env.dbOk env.now env.exec c env.backend).2.2.map
        (fun lr => Obs.applied s lr.index lr.term lr.sql), applyObs Configs w ob := by
    intro c hc ob hob
    obtain ⟨lr, hlr, rfl⟩ := List.mem_map.mp hob
    obtain ⟨-, hspec⟩ := hl.applyLogRecords (A := fun _ => True)
      ⟨fun _ _ _ => trivial, trivial⟩ (fun _ _ => trivial)
      (fun i hi _ => hl.finds env.backend (hi.trans hc.1)) env.dbOk env.now env.exec
    obtain ⟨hpos, hle, hent⟩ := hspec lr hlr
    refine ⟨hpos, _, _, hc.2, ?_⟩
    rw [List.getElem?_take, if_pos (by omega)]
    exact hent
  cases h with
  | replApply p t c => exact hrecords ht.2
  | applyRecords i back => exact hrecords ht
  | replicaSuccessLock f e i p =>
    intro ob hob
    obtain ⟨j, -, rfl⟩ := List.mem_map.mp hob
    trivial
  | register i back =>
    intro ob hob
    obtain ⟨j, -, rfl⟩ := List.mem_map.mp hob
    trivial
  | _ => exact fun ob hob => absurd hob (by simp [Outcome.mk', Outcome.send])

/-- What a step sends is safe. -/
theorem applyMsg_step (hterm : w.ledger.term s = v.raft.term)
    (hserver : Safe Configs w s v.raft.commit) (ht : applyThread Configs w s v t)
    (h : ThreadStep s v net env t o) : ∀ m ∈ o.sent, applyMsg Configs w m := by
  cases h with
  | reply m =>
    intro m' hm'
    rw [Outcome.send, List.mem_singleton] at hm'
    rw [hm']
    exact ht
  | voteSend servers t n li lt f rest granted => simp [Outcome.send, applyMsg]
  | replicaSend f e c lr hf =>
    intro m hm
    rw [Outcome.send, List.mem_singleton] at hm
    rw [hm]
    exact safeRequest_send hterm hserver rfl rfl rfl
  | beatSend f c =>
    intro m hm
    rw [Outcome.send, List.mem_singleton] at hm
    rw [hm]
    exact safeRequest_send hterm hserver rfl rfl rfl
  | _ => simp [Outcome.mk']

/-- The place a thread goes to keeps its assertion. -/
theorem applyThread_step (hk : Keeps Configs w w')
    (ha : Answering v o.server (Safe Configs w' s)) (hs : ApplyServer Configs w s v)
    (hl : v.logdb.Holds (text s) (w.ledger.log s))
    (hcommit : Safe Configs w s o.server.raft.commit)
    (hreg : ∀ f T i record, Obs.commit f T i record ∈ o.obs → Safe Configs w' s i)
    (ht : applyThread Configs w s v t) (h : ThreadStep s v net env t o) :
    applyThread Configs w' s o.server o.thread := by
  cases h with
  | goto hg => exact applyThread_mono hk ha _ (applyThread_goto ht hg)
  | updateRaftState x k => exact applyThread_mono hk ha k ht
  | followerSetup t k =>
    have hA := (LogDB.AppliedIn.setupIndex hl.rows hs.applied.rows env.backend).2
    exact ⟨hA.mono hk, applyThread_mono hk ha k ht⟩
  | followerNewTerm t a k _ => exact applyThread_mono hk ha k ht.2
  | followerSameTerm t a k _ => exact applyThread_mono hk ha k ht.2
  | leaderSetup t granted =>
    have hA := (LogDB.AppliedIn.setupIndex hl.rows hs.applied.rows env.backend).2
    exact hA.mono hk
  | heartbeatCommit p c li => exact ⟨SafeRequest.mono hk ht, hcommit.mono hk⟩
  | replDelete p c => exact SafeRequest.mono hk ht
  | replInsert p c db _ => exact SafeRequest.mono hk ht
  | replCommit p c => exact ⟨SafeRequest.mono hk ht, hcommit.mono hk⟩
  | register i back =>
    obtain ⟨hreq, hans, -⟩ := v.raft.replicateLog_requests v.tickets i
    refine ⟨Nat.lt_succ_self _, ?_, ?_⟩
    · intro j rr hrr htick
      rcases hreq j rr hrr with ⟨heq, -⟩ | hold
      · exact heq
      · have := hs.requests j rr hold
        omega
    · intro hmem
      rcases hans _ _ hmem with hold | ⟨-, hres⟩
      · exact absurd (hs.answers _ _ hold) (lt_irrefl _)
      · refine hreg s v.raft.term i (v.logdb.entry i) (List.mem_map.mpr ⟨i, ?_, rfl⟩)
        rw [hres rfl]
        simp
  | applyRecords i back =>
    show applyThread Configs w' s _ (if back then .reconciled else .done)
    split <;> trivial
  | _ => trivial

/-- **What a step of a thread leaves.** -/
theorem applies_running (hconf : ZoneConfigs Configs) (h : CommitInv Configs text w σ)
    (ha : (applies Configs).Holds w σ) (hok : ApplyOk Configs σ e)
    (hrun : σ.running e = some (s, t, env)) (ht : applyThread Configs w s (σ.node s).server t)
    (hstep : ThreadStep s (σ.node s).server σ.net env t o) :
    (applies Configs).Frame w (w.next s (σ.node s).server t o) s (σ.node s).server o.server ∧
      (applies Configs).Establishes (w.next s (σ.node s).server t o) s o ∧
      Answering (σ.node s).server o.server (Safe Configs (w.next s (σ.node s).server t o) s) ∧
      Keeps Configs w (w.next s (σ.node s).server t o) ∧
      applyThread Configs (w.next s (σ.node s).server t o) s o.server o.thread := by
  have hes := h.election.server s
  have hls := h.logs.server s
  have hcs := h.commits.server s
  have hs := ha.server s
  have hr := commitRunning_of_running hconf h.election h.logs h.commits hrun
  have hcounts := hok.counts.elim hrun
  have hin := hok.handler.elim hrun
  have hout := commits_running hconf h.election h.logs h.commits hok.toCommitOk hrun hstep
  have hk := keeps_of_step hconf h.commits.world hes.term hls.log hin hr.log hr.commit hout
  have hraft := raftCounts_step hcs.toRaftCounts hr.commit hcounts
    (fun T g a i heq => hr.lock ⟨T, g, a, i, heq⟩) hstep
  have hsafe : ∀ f T i record, Obs.commit f T i record ∈ o.obs → Safe Configs w s i :=
    fun f T i record hob =>
      safe_of_commit hes.term hls hcs hraft hr.commit hcounts hstep hob
  have hsafe' : ∀ f T i record, Obs.commit f T i record ∈ o.obs →
      Safe Configs (w.next s (σ.node s).server t o) s i :=
    fun f T i record hob => (hsafe f T i record hob).mono hk
  have hans := answering_step hsafe' hstep
  have hcommit : Safe Configs w s o.server.raft.commit := by
    refine safe_commit_step hsafe ?_ ?_ hs.commit ht hstep
    · rintro p c li rfl hlt
      exact safe_heartbeat h.commits.world (fun f => (h.logs.server f).log) hes.term ht hr.log.2
        (hok.heartbeat.elim hrun hlt)
    · rintro p c rfl
      exact safe_replCommit hconf h.commits.world hes.term hr.commit.1 hr.commit.2 ht hr.log.2
  have hserver : ApplyServer Configs (w.next s (σ.node s).server t o) s o.server := by
    refine ⟨hcommit.mono hk, ?_, ?_, ?_⟩
    · refine (hout.applied _ hs.applied fun i hi => ?_).mono (fun _ => Safe.mono hk)
      have hi' := safe_of_applies ht i hi
      exact ⟨hi', fun _ => hls.log.finds env.backend hi'.1⟩
    · intro j rr hrr
      have := hans.tickets_le
      rcases hans.requests j rr hrr with ⟨heq, hlt⟩ | ⟨rr₀, hrr₀, heq⟩
      · omega
      · have := hs.requests j rr₀ hrr₀
        omega
    · intro k b hmem
      have := hans.tickets_le
      rcases hans.answers k b hmem with hold | ⟨heq, hlt⟩ | ⟨j, rr, hrr, heq, -⟩
      · have := hs.answers k b hold
        omega
      · omega
      · have := hs.requests j rr hrr
        omega
  refine ⟨applies_frame hk hans, ⟨trivial, hserver, ?_, ?_, ?_⟩, hans, hk, ?_⟩
  · intro t' ht'
    cases hstep with
    | leaderLock T granted applied index r i hr' =>
      obtain ⟨j, rfl, rfl⟩ := Option.mem_map.mp (Option.mem_toList.mp ht')
      trivial
    | _ => exact absurd ht' (by simp [Outcome.mk', Outcome.send])
  · exact fun m hm => applyMsg_mono hk (applyMsg_step hes.term hs.commit ht hstep m hm)
  · exact fun ob hob => applyObs_mono hk (applyObs_step hls.log ht hstep ob hob)
  · exact applyThread_step hk hans hs hls.log hcommit hsafe' ht hstep

/-- **Every step keeps the invariant of state machine safety.** -/
theorem applies_move (hconf : ZoneConfigs Configs) (h : CommitInv Configs text w σ)
    (ha : (applies Configs).Holds w σ) (hok : ApplyOk Configs σ e)
    (hmove : Cluster.Move w σ e σ' w') : (applies Configs).Holds w' σ' := by
  have hframe : ∀ {s : ServerId} {v v' : Server}, v'.tickets = v.tickets →
      v'.raft.requests = v.raft.requests → (applies Configs).Frame w w s v v' :=
    fun ht hr => applies_frame (Keeps.refl Configs w) (.of_eq ht hr)
  cases hmove with
  | timeout s servers htimer hstate =>
    have hs := ha.server s
    exact ha.put (hframe rfl rfl) trivial ⟨hs.commit, hs.applied, hs.requests, hs.answers⟩ trivial
      (fun t ht => Or.inl ht) (by simp) (by simp)
  | timer s env o hstep =>
    obtain ⟨hf, hout, -, -, ht⟩ := applies_running hconf h ha hok rfl (ha.timer s) hstep
    exact ha.timer_step hf hout ht
  | thread s i env t o hi hstep =>
    have hrun := Cluster.running_thread hi env
    obtain ⟨hf, hout, hans, hk, ht⟩ :=
      applies_running hconf h ha hok hrun (ha.thread s t (List.mem_of_getElem? hi)) hstep
    exact ha.thread_step hf hout ht (applyThread_mono hk hans _ (ha.timer s))
  | start e s t pending hstart =>
    have hs := ha.server s
    refine ha.put (hframe rfl rfl) trivial ⟨hs.commit, hs.applied, hs.requests, hs.answers⟩ ?_ ?_
      (by simp) (by simp)
    · refine applyThread_mono (v := (σ.node s).server) (Keeps.refl Configs w) ?_ _ (ha.timer s)
      exact .of_eq rfl rfl
    · intro t' ht'
      refine (List.mem_append.mp ht').imp_right ?_
      intro heq
      rw [List.mem_singleton.mp heq]
      cases hstart with
      | replicate hm hdst => exact ha.msg _ hm
      | _ => trivial
  | restart s servers now text' =>
    have hs := ha.server s
    refine ha.put (applies_frame (Keeps.refl Configs w) ⟨le_rfl, ?_, ?_⟩) trivial
      ⟨safe_zero Configs w s, ?_, ?_, ?_⟩ trivial (by simp) (by simp) (by simp)
    · intro j rr hrr
      exact absurd hrr (by simp [Cluster.restarted, RaftManager.construct])
    · intro k b hmem
      exact absurd hmem (by simp [Cluster.restarted, RaftManager.construct])
    · exact (h.logs.server s).log.rows.construct_appliedIn hs.applied.rows _ _ _ _ _
    · intro j rr hrr
      exact absurd hrr (by simp [Cluster.restarted, RaftManager.construct])
    · intro k b hmem
      exact absurd hmem (by simp [Cluster.restarted, RaftManager.construct])

theorem applies_init (Configs : List ServerId → Prop) (zone : List ServerId)
    (text : ServerId → Sql) : (applies Configs).Holds World.init (Cluster.init zone text) where
  world := trivial
  server := by
    intro s
    refine ⟨safe_zero _ _ s, ?_, ?_, ?_⟩
    · refine (LogDB.construct_nil 250000 100000 true one_ne_zero (text s)).2.mono ?_
      rintro i rfl
      exact safe_zero _ _ s
    · intro j rr hrr
      exact absurd hrr (by simp [Cluster.init, RaftManager.construct])
    · intro k b hmem
      exact absurd hmem (by simp [Cluster.init, RaftManager.construct])
  timer := fun s => trivial
  thread := fun s t ht => absurd ht (by simp [Cluster.init])
  msg := fun m hm => absurd hm (by simp [Cluster.init])
  obs := fun ob hob => absurd hob (by simp [Cluster.init])

/-- In every state of a run there is a world with all four invariants. -/
theorem applies_reach (hconf : ZoneConfigs Configs) (zone : List ServerId)
    (hrun : Reach Cluster.step (ApplyOk Configs) (Cluster.init zone text) σ) :
    ∃ w, CommitInv Configs text w σ ∧ (applies Configs).Holds w σ := by
  refine hrun.inv (P := fun σ => ∃ w, CommitInv Configs text w σ ∧ (applies Configs).Holds w σ)
    ⟨World.init, ⟨election_init Configs zone text, logs_init zone text,
      commits_init Configs zone text⟩, applies_init Configs zone text⟩ ?_
  rintro σ₁ e σ₂ ⟨w₁, h₁, ha₁⟩ hok hstep
  obtain ⟨w₂, hmove⟩ := Cluster.step_cases w₁ hstep
  exact ⟨w₂, h₁.move hconf hok.toCommitOk hmove, applies_move hconf h₁ ha₁ hok hmove⟩

end Step

/-! ## State machine safety -/

/-- Two prefixes that are comparable have the same entry where both have one. -/
theorem entry_eq_of_isPrefix {P P' : List (Entry Sql)} {k : ℕ} {e e' : Entry Sql}
    (hcomp : P <+: P' ∨ P' <+: P) (he : P[k]? = some e) (he' : P'[k]? = some e') : e = e' := by
  rcases hcomp with hpre | hpre
  · exact Option.some.inj ((getElem?_of_isPrefix hpre he).symm.trans he')
  · exact Option.some.inj (he.symm.trans (getElem?_of_isPrefix hpre he'))

/-- **State machine safety.**  In every run whose steps meet `ApplyOk`: all servers that apply a
record at an index apply the same one.  And a handler of `replicate_log` that is about to apply
records has, up to the leader's commit index, the same records as the leader that sent the
request; when the handler has raised the commit index, these are all the records it applies. -/
theorem applied_agree_of_applyOk {Configs : List ServerId → Prop} (hconf : ZoneConfigs Configs)
    (zone : List ServerId) (text : ServerId → Sql) {σ : Cluster}
    (hrun : Reach Cluster.step (ApplyOk Configs) (Cluster.init zone text) σ) :
    (∀ s s' i t t' x x', Obs.applied s i t x ∈ σ.obs → Obs.applied s' i t' x' ∈ σ.obs →
        t = t' ∧ x = x') ∧
      ∀ s p c i, Thread.replApply p c i ∈ (σ.node s).threads →
        ∀ j, 0 < j → j ≤ i → j ≤ p.leaderCommit →
          ∃ x, (σ.node s).server.logdb.entry j = some x ∧
            (σ.node p.leaderId).server.logdb.entry j = some x := by
  obtain ⟨w, h, ha⟩ := applies_reach hconf zone hrun
  have hs := h.commits.world
  refine ⟨?_, ?_⟩
  · intro s s' i t t' x x' hob hob'
    obtain ⟨-, U, P, hP, hx⟩ := ha.obs _ hob
    obtain ⟨-, U', P', hP', hx'⟩ := ha.obs _ hob'
    exact Prod.mk.inj (entry_eq_of_isPrefix (hs.committed_total hconf.meet hP hP') hx hx')
  · intro s p c i hmem j hpos hji hjc
    obtain ⟨hreq, hsafe⟩ := ha.thread s _ hmem
    -- both logs have the record in a committed prefix
    have hget : ∀ f k, Safe Configs w f k → j ≤ k →
        ∃ x, ((w.ledger.log f).take k)[j - 1]? = some x ∧
          (σ.node f).server.logdb.entry j = some x := by
      intro f k hk hjk
      have hlen := hk.1
      refine ⟨(w.ledger.log f)[j - 1], ?_, ?_⟩
      · rw [List.getElem?_take, if_pos (by omega)]
        exact List.getElem?_eq_getElem _
      · have hsucc := (h.logs.server f).log.succ (j - 1)
        rw [Nat.sub_add_cancel hpos] at hsucc
        rw [hsucc]
        exact List.getElem?_eq_getElem _
    obtain ⟨x, hx, hent⟩ := hget s i hsafe hji
    obtain ⟨x', hx', hent'⟩ := hget p.leaderId p.leaderCommit hreq.1 hjc
    have heq := entry_eq_of_isPrefix (hs.committed_total hconf.meet hsafe.2 hreq.2) hx hx'
    exact ⟨x, hent, heq ▸ hent'⟩

/-- The record of `commitRun` is applied by its leader and, after a heartbeat, by server `1`. -/
def heartbeatRun : List (ℕ × Event) :=
  commitRun.append [(1, .thread 0 1 .calm), (3, .thread 0 0 .calm), (1, .beat 0 1),
    (2, .thread 0 2 .calm), (1, .recvReplicate 1 ⟨0, 1, 1, 1, 0, 0, 0, 0, none, []⟩),
    (5, .thread 1 2 .calm)]

theorem applied_agree_heartbeatRun :
    ∃ σ, Reach Cluster.step (ApplyOk (· = [0, 1, 2]))
        (Cluster.init [0, 1, 2] (fun _ => ['0'])) σ ∧
      Obs.applied 0 1 1 ['X'] ∈ σ.obs ∧
      ∀ s t x, Obs.applied s 1 t x ∈ σ.obs → 1 = t ∧ ['X'] = x := by
  have hrun : ((runChecked Cluster.step (ApplyOk (· = [0, 1, 2]))
      (Cluster.init [0, 1, 2] (fun _ => ['0'])) (repeated heartbeatRun)).map Cluster.obs) =
      some [.applied 1 1 1 ['X'], .applied 0 1 1 ['X'], .commit 0 1 1 (some (1, ['X']))] := by
    decide
  obtain ⟨σ, hσ, hobs⟩ := Option.map_eq_some_iff.mp hrun
  have hreach := reach_of_runChecked _ hσ
  have hmem : Obs.applied 0 1 1 ['X'] ∈ σ.obs := by
    rw [hobs]
    decide
  have hagree := (applied_agree_of_applyOk (zoneConfigs_fixed (by decide)) [0, 1, 2]
    (fun _ => ['0']) hreach).1
  exact ⟨σ, hreach, hmem, fun s t x hob => hagree 0 s 1 1 t _ x hmem hob⟩

/-- The run in which two servers apply different records.  Server `0` leads term 1 and inserts
`X`, which nobody else gets.  Server `2` leads term 2, replicates `Y` to server `1`, commits and
applies it.  Its heartbeat makes server `0` step down, raise its commit index to its own last
index and apply `X`. -/
def heartbeatOnlyRun : List (ℕ × Event) :=
  electionRun.append [(1, .write 0 ['X'] none), (3, .thread 0 0 .calm), (1, .timeout 2 [0, 1, 2]),
    (15, .timer 2 .calm), (1, .recvVote 1 ⟨2, 1, 2, 0, 0⟩), (8, .thread 1 1 .calm),
    (1, .timer 2 (.answer true 1)), (2, .timer 2 .calm), (1, .write 2 ['Y'] none),
    (4, .thread 2 0 .calm), (1, .wake 2 1), (4, .thread 2 1 .calm),
    (1, .recvReplicate 1 ⟨2, 1, 0, 2, 1, 2, 0, 0, none, ['Y']⟩), (8, .thread 1 2 .calm),
    (1, .thread 2 1 (.answer true 2)), (2, .thread 2 1 .calm), (3, .thread 2 0 .calm),
    (1, .beat 2 0), (2, .thread 2 2 .calm),
    (1, .recvReplicate 0 ⟨2, 0, 1, 2, 0, 0, 0, 0, none, []⟩), (8, .thread 0 1 .calm)]

/-- Without the condition, two servers can apply different records at one index. -/
theorem two_records_applied_at_one_index :
    ¬ ∀ σ, Reach Cluster.step (fun _ e => e.inZone [0, 1, 2] = true)
        (Cluster.init [0, 1, 2] (fun _ => ['0'])) σ →
      ∀ s s' i t t' x x', 0 < i → Obs.applied s i t x ∈ σ.obs → Obs.applied s' i t' x' ∈ σ.obs →
        t = t' ∧ x = x' := by
  intro h
  have hrun : ((runEvents Cluster.step (Cluster.init [0, 1, 2] (fun _ => ['0']))
      (repeated heartbeatOnlyRun)).map Cluster.obs) =
      some [.applied 0 1 1 ['X'], .applied 2 1 2 ['Y'], .commit 2 2 1 (some (2, ['Y']))] := by
    decide
  obtain ⟨σ, hσ, hobs⟩ := Option.map_eq_some_iff.mp hrun
  have hzone : ∀ e ∈ repeated heartbeatOnlyRun, e.inZone [0, 1, 2] = true := by decide
  have hX : Obs.applied 0 1 1 ['X'] ∈ σ.obs := by
    rw [hobs]
    decide
  have hY : Obs.applied 2 1 2 ['Y'] ∈ σ.obs := by
    rw [hobs]
    decide
  have heq := h σ (reach_of_runEvents _ hzone hσ) 0 2 1 1 2 _ _ one_pos hX hY
  exact absurd heq.1 (by decide)
