/-
# Worlds and assertions

What an invariant of the zone may speak about, and the rule to prove it.

The state of the zone does not remember who voted for whom in a term that is over, who won
it, and which records were acknowledged.  A `World` does: it has the ballots and a `Ledger`
of the theory of replicated logs, and `World.next` says how a step of a thread changes them.
A world is never read by the model, it is only carried along (`Cluster.Move`).

An invariant is given by `Assertions`: what holds of the world, of the shared state of each
server, of each of its threads, of each message and of each observation.  A step changes one
server, so it keeps an invariant (`Assertions.Holds.put`) if it establishes the assertions
about that server and what it sent, and if all the other assertions are stable under the
change of the world (`Assertions.Frame`).
-/
import OpenNebula.ThreadStep
import OpenNebula.LogContents

open ReplicatedLog

/-! ## Worlds -/

/-- What is remembered of a run. -/
structure World where
  /-- The candidate that each server voted for in each term. -/
  ballot : ServerId → ℕ → Option ServerId
  /-- The terms, the logs, the leaders and the acknowledgements. -/
  ledger : Ledger ServerId Sql

namespace World

/-- The world when the zone is started. -/
def init : World where
  ballot := fun _ _ => none
  ledger := ⟨fun _ => 0, fun _ => [], fun _ => none, fun _ => [], fun _ _ _ => False⟩

/-- The index that a handler acknowledges when it goes from one place to the next.  The
record `0` needs no acknowledgement. -/
def acknowledged : Thread → Thread → Option ℕ
  | .replRecord p _, .reply (.replicateReply _ true _) =>
    if p.index = 0 then none else some p.index
  | .replInsert p _, .replCommit _ _ => some p.index
  | _, _ => none

/-- The step makes a leader of a candidate. -/
def Elected (v : Server) (o : Outcome) : Prop :=
  v.raft.state = .candidate ∧ o.server.raft.state = .leader

instance (v : Server) (o : Outcome) : Decidable (Elected v o) :=
  inferInstanceAs (Decidable (_ ∧ _))

/-- The ledger after a step of a thread: a candidate becomes leader, a leader appends a
record, a handler acknowledges one, or the server just has a new term or log. -/
def nextLedger (L : Ledger ServerId Sql) (s : ServerId) (v : Server) (t : Thread) (o : Outcome) :
    Ledger ServerId Sql :=
  match t, o.thread with
  | .leaderLock _ _ _ _, _ =>
    if Elected v o then (L.elect s).accept s (L.log s).length else L
  | .writeInsert sql _ _, .register _ _ => (L.append s sql).accept s ((L.log s).length + 1)
  | t, t' =>
    match acknowledged t t' with
    | some i => (L.move s o.server.raft.term o.server.logdb.log).accept s i
    | none => L.move s o.server.raft.term o.server.logdb.log

/-- The world after a step of a thread. -/
def next (w : World) (s : ServerId) (v : Server) (t : Thread) (o : Outcome) : World where
  ballot := Function.update w.ballot s
    (Function.update (w.ballot s) o.server.raft.term o.server.raft.votedfor)
  ledger := nextLedger w.ledger s v t o

end World

/-! ## Inversion of a step of the zone -/

/-- The threads that are started from outside. -/
inductive Cluster.Starts (σ : Cluster) (s : ServerId) : Thread → Prop
  | vote {p : VoteParams} : Msg.vote p ∈ σ.net → p.dst = s → Starts σ s (.voteTerm p)
  | replicate {p : ReplicateParams} : Msg.replicate p ∈ σ.net → p.dst = s →
      Starts σ s (.replTerm p)
  | replica {f : ServerId} : Starts σ s (.replicaTerm f (σ.node s).server.raft.term)
  | beat {f : ServerId} : Starts σ s (.beatTerm f)
  | write {sql : Sql} {fed : Option ℕ} : Starts σ s (.writeLeader sql fed)
  | addServer {f : ServerId} : Starts σ s (.addServer f)
  | resetIndex {f : ServerId} : Starts σ s (.resetIndex f)

namespace Cluster

/-- The thread that an event lets run, with its surroundings. -/
def running (σ : Cluster) : Event → Option (ServerId × Thread × Env)
  | .timer s env => some (s, (σ.node s).timer, env)
  | .thread s i env => (σ.node s).threads[i]?.map (fun t => (s, t, env))
  | _ => none

theorem running_thread {σ : Cluster} {s : ServerId} {i : ℕ} {t : Thread} (hi : (σ.node s).threads[i]? = some t)
    (env : Env) : σ.running (.thread s i env) = some (s, t, env) := by simp [running, hi]

/-- The thread that runs meets a condition. -/
def Running (σ : Cluster) (e : Event) (P : ServerId → Thread → Env → Prop) : Prop :=
  match σ.running e with
  | some (s, t, env) => P s t env
  | none => True

theorem Running.elim {σ : Cluster} {e : Event} {P : ServerId → Thread → Env → Prop}
    (h : σ.Running e P) {s : ServerId} {t : Thread} {env : Env}
    (hr : σ.running e = some (s, t, env)) : P s t env := by
  unfold Running at h
  rw [hr] at h
  exact h

instance (σ : Cluster) (e : Event) (P : ServerId → Thread → Env → Prop)
    [∀ s t env, Decidable (P s t env)] : Decidable (σ.Running e P) := by
  unfold Running
  split <;> infer_instance

/-- The server that a restart leaves. -/
def restarted (v : Server) (servers : List ServerId) (now : ℕ) (text : Sql) : Server :=
  { v with
    raft := RaftManager.construct v.row.attributes v.row.changes servers
    logdb := LogDB.construct v.logdb.table v.logdb.logRetention v.logdb.limitPurge
      v.logdb.limit now text }

/-- The steps of the zone, with the world before and after. -/
inductive Move (w : World) (σ : Cluster) : Event → Cluster → World → Prop
  | timeout (s : ServerId) (servers : List ServerId) : (σ.node s).timer = .done →
      (σ.node s).server.raft.state = .follower →
      Move w σ (.timeout s servers)
        (σ.put s { (σ.node s) with
          server := { (σ.node s).server with
            raft := { (σ.node s).server.raft with state := .candidate } }
          timer := .voteInit servers } [] []) w
  | timer (s : ServerId) (env : Env) (o : Outcome) :
      ThreadStep s (σ.node s).server σ.net env (σ.node s).timer o →
      Move w σ (.timer s env)
        (σ.put s ⟨o.server, o.thread, (σ.node s).threads ++ o.started⟩ o.sent o.obs)
        (w.next s (σ.node s).server (σ.node s).timer o)
  | thread (s : ServerId) (i : ℕ) (env : Env) (t : Thread) (o : Outcome) :
      (σ.node s).threads[i]? = some t →
      ThreadStep s (σ.node s).server σ.net env t o →
      Move w σ (.thread s i env)
        (σ.put s ⟨o.server, (σ.node s).timer, (σ.node s).threads.set i o.thread ++ o.started⟩
          o.sent o.obs)
        (w.next s (σ.node s).server t o)
  | start (e : Event) (s : ServerId) (t : Thread) (pending : List ServerId) : Starts σ s t →
      Move w σ e
        (σ.put s { (σ.node s) with
          server := { (σ.node s).server with
            raft := { (σ.node s).server.raft with pending := pending } }
          threads := (σ.node s).threads ++ [t] } [] []) w
  | restart (s : ServerId) (servers : List ServerId) (now : ℕ) (text : Sql) :
      Move w σ (.restart s servers now text)
        (σ.put s ⟨restarted (σ.node s).server servers now text, .done, []⟩ [] []) w

/-- A thread that is started without touching the Raft state. -/
theorem Move.start' {w : World} {σ : Cluster} {s : ServerId} {t : Thread} (e : Event) (h : Starts σ s t) :
    Move w σ e (σ.start s t) w :=
  Move.start e s t (σ.node s).server.raft.pending h

/-- **Inversion.**  Every step of the zone is one of the cases of `Move`. -/
theorem step_cases {σ σ' : Cluster} {e : Event} (w : World)
    (h : σ.step e = some σ') : ∃ w', Move w σ e σ' w' := by
  cases e with
  | timeout s servers =>
    simp only [step] at h
    split at h
    · rename_i r htimer hr
      rw [← Option.some.inj h]
      unfold RaftManager.timerAction at hr
      split at hr
      · rename_i hstate
        rw [← Option.some.inj hr]
        exact ⟨_, .timeout s servers htimer hstate⟩
      · exact absurd hr (by simp)
    · exact absurd h (by simp)
  | timer s env =>
    simp only [step] at h
    split at h
    · rename_i o ho
      rw [← Option.some.inj h]
      exact ⟨_, .timer s env o (threadStep_cases ho)⟩
    · exact absurd h (by simp)
  | thread s i env =>
    simp only [step] at h
    split at h
    · rename_i t ht
      split at h
      · rename_i o ho
        rw [← Option.some.inj h]
        exact ⟨_, .thread s i env t o ht (threadStep_cases ho)⟩
      · exact absurd h (by simp)
    · exact absurd h (by simp)
  | recvVote s p =>
    simp only [step] at h
    split at h
    · rename_i hp
      rw [← Option.some.inj h]
      exact ⟨_, .start' _ (.vote hp.1 hp.2)⟩
    · exact absurd h (by simp)
  | recvReplicate s p =>
    simp only [step] at h
    split at h
    · rename_i hp
      rw [← Option.some.inj h]
      exact ⟨_, .start' _ (.replicate hp.1 hp.2)⟩
    · exact absurd h (by simp)
  | wake s f =>
    simp only [step] at h
    split at h
    · rw [← Option.some.inj h]
      exact ⟨_, .start _ s _ _ .replica⟩
    · exact absurd h (by simp)
  | beat s f =>
    simp only [step] at h
    split at h
    · rw [← Option.some.inj h]
      exact ⟨_, .start' _ .beat⟩
    · exact absurd h (by simp)
  | write s sql fed =>
    simp only [step, Option.some.injEq] at h
    rw [← h]
    exact ⟨_, .start' _ .write⟩
  | addServer s f =>
    simp only [step, Option.some.injEq] at h
    rw [← h]
    exact ⟨_, .start' _ .addServer⟩
  | resetServer s f =>
    simp only [step, Option.some.injEq] at h
    rw [← h]
    exact ⟨_, .start' _ .resetIndex⟩
  | restart s servers now text =>
    simp only [step, Option.some.injEq] at h
    rw [← h]
    exact ⟨_, .restart s servers now text⟩

end Cluster

/-! ## What a step does to one server -/

/-- All threads of a server. -/
def Node.all (n : Node) : List Thread := n.timer :: n.threads

/-- What a step of the zone does to the server `s`. -/
inductive Cluster.NodeMove (σ : Cluster) (e : Event) (s : ServerId) (n' : Node) : Prop
  | same : n' = σ.node s → NodeMove σ e s n'
  | timeout (servers : List ServerId) : (σ.node s).timer = .done →
      (σ.node s).server.raft.state = .follower →
      n' = { (σ.node s) with
        server := { (σ.node s).server with
          raft := { (σ.node s).server.raft with state := .candidate } }
        timer := .voteInit servers } → NodeMove σ e s n'
  | step (t : Thread) (env : Env) (o : Outcome) : σ.running e = some (s, t, env) →
      t ∈ (σ.node s).all → ThreadStep s (σ.node s).server σ.net env t o →
      n'.server = o.server →
      (∀ t' ∈ n'.all, t' ∈ (σ.node s).all ∨ t' = o.thread ∨ t' ∈ o.started) →
      (∀ t' ∈ (σ.node s).all, t' ≠ t → t' ∈ n'.all) → o.thread ∈ n'.all → NodeMove σ e s n'
  | start (t : Thread) (pending : List ServerId) : Cluster.Starts σ s t →
      n' = { (σ.node s) with
        server := { (σ.node s).server with
          raft := { (σ.node s).server.raft with pending := pending } }
        threads := (σ.node s).threads ++ [t] } → NodeMove σ e s n'
  | restart (servers : List ServerId) (now : ℕ) (text : Sql) :
      n' = ⟨Cluster.restarted (σ.node s).server servers now text, .done, []⟩ → NodeMove σ e s n'

theorem Cluster.Move.node {w w' : World} {σ σ' : Cluster} {e : Event}
    (h : Cluster.Move w σ e σ' w') (s : ServerId) : Cluster.NodeMove σ e s (σ'.node s) := by
  have hput : ∀ {s₀ : ServerId} {n : Node} {sent : List Msg} {obs : List Obs},
      (s₀ = s → Cluster.NodeMove σ e s n) →
      Cluster.NodeMove σ e s ((σ.put s₀ n sent obs).node s) := by
    intro s₀ n sent obs hn
    by_cases hs : s₀ = s
    · subst hs
      simpa [Cluster.put] using hn rfl
    · exact .same (by simp [Cluster.put, Function.update_of_ne (Ne.symm hs)])
  cases h with
  | timeout s₀ servers htimer hstate =>
    refine hput ?_
    rintro rfl
    exact .timeout servers htimer hstate rfl
  | timer s₀ env o hstep =>
    refine hput ?_
    rintro rfl
    refine .step _ env o rfl List.mem_cons_self hstep rfl ?_ ?_ List.mem_cons_self
    · intro t ht
      rcases List.mem_cons.mp ht with rfl | ht
      · exact Or.inr (Or.inl rfl)
      · rcases List.mem_append.mp ht with ht | ht
        · exact Or.inl (List.mem_cons_of_mem _ ht)
        · exact Or.inr (Or.inr ht)
    · intro t ht hne
      rcases List.mem_cons.mp ht with rfl | ht
      · exact absurd rfl hne
      · exact List.mem_cons_of_mem _ (List.mem_append_left _ ht)
  | thread s₀ i env t o hi hstep =>
    refine hput ?_
    rintro rfl
    have hrun := running_thread hi env
    have hlt := (List.getElem?_eq_some_iff.mp hi).1
    refine .step t env o hrun (List.mem_cons_of_mem _ (List.mem_of_getElem? hi)) hstep rfl ?_ ?_ ?_
    · intro t' ht'
      rcases List.mem_cons.mp ht' with rfl | ht'
      · exact Or.inl List.mem_cons_self
      · rcases List.mem_append.mp ht' with ht' | ht'
        · rcases List.mem_or_eq_of_mem_set ht' with ht' | rfl
          · exact Or.inl (List.mem_cons_of_mem _ ht')
          · exact Or.inr (Or.inl rfl)
        · exact Or.inr (Or.inr ht')
    · intro t' ht' hne
      rcases List.mem_cons.mp ht' with rfl | ht'
      · exact List.mem_cons_self
      · refine List.mem_cons_of_mem _ (List.mem_append_left _ ?_)
        obtain ⟨j, hj⟩ := List.mem_iff_getElem?.mp ht'
        refine List.mem_iff_getElem?.mpr ⟨j, ?_⟩
        rw [List.getElem?_set]
        have hij : i ≠ j := by
          rintro rfl
          rw [hi] at hj
          exact hne (Option.some.inj hj).symm
        rw [if_neg hij]
        exact hj
    · exact List.mem_cons_of_mem _ (List.mem_append_left _ (List.mem_set hlt _))
  | start e s₀ t pending hstart =>
    refine hput ?_
    rintro rfl
    exact .start t pending hstart rfl
  | restart s₀ servers now text =>
    refine hput ?_
    rintro rfl
    exact .restart servers now text rfl

/-! ## Assertions -/

/-- An invariant of the zone. -/
structure Assertions where
  world : World → Prop
  server : World → ServerId → Server → Prop
  timer : World → ServerId → Server → Thread → Prop
  thread : World → ServerId → Server → Thread → Prop
  msg : World → Msg → Prop
  obs : World → Obs → Prop

namespace Assertions

/-- The invariant holds. -/
structure Holds (A : Assertions) (w : World) (σ : Cluster) : Prop where
  world : A.world w
  server : ∀ s, A.server w s (σ.node s).server
  timer : ∀ s, A.timer w s (σ.node s).server (σ.node s).timer
  thread : ∀ s, ∀ t ∈ (σ.node s).threads, A.thread w s (σ.node s).server t
  msg : ∀ m ∈ σ.net, A.msg w m
  obs : ∀ ob ∈ σ.obs, A.obs w ob

/-- The assertions about everything but the acting thread are stable when the world goes from
`w` to `w'` and the server `s` from `v` to `v'`. -/
structure Frame (A : Assertions) (w w' : World) (s : ServerId) (v v' : Server) : Prop where
  server : ∀ s' u, s' ≠ s → A.server w s' u → A.server w' s' u
  timer : ∀ s' u t, s' ≠ s → A.timer w s' u t → A.timer w' s' u t
  thread : ∀ s' u t, s' ≠ s → A.thread w s' u t → A.thread w' s' u t
  same : ∀ t, A.thread w s v t → A.thread w' s v' t
  msg : ∀ m, A.msg w m → A.msg w' m
  obs : ∀ ob, A.obs w ob → A.obs w' ob

/-- **A step of one server.**  The threads of the server after the step are threads it had
before, or their assertion is shown. -/
theorem Holds.put {A : Assertions} {w w' : World} {σ : Cluster} (h : A.Holds w σ) {s : ServerId}
    {n : Node} {sent : List Msg} {obs : List Obs}
    (hframe : A.Frame w w' s (σ.node s).server n.server) (hworld : A.world w')
    (hserver : A.server w' s n.server) (htimer : A.timer w' s n.server n.timer)
    (hthread : ∀ t ∈ n.threads, t ∈ (σ.node s).threads ∨ A.thread w' s n.server t)
    (hsent : ∀ m ∈ sent, A.msg w' m) (hobs : ∀ ob ∈ obs, A.obs w' ob) :
    A.Holds w' (σ.put s n sent obs) where
  world := hworld
  server := by
    intro s'
    by_cases hs : s' = s
    · subst hs
      simpa [Cluster.put] using hserver
    · simpa [Cluster.put, hs] using hframe.server s' _ hs (h.server s')
  timer := by
    intro s'
    by_cases hs : s' = s
    · subst hs
      simpa [Cluster.put] using htimer
    · simpa [Cluster.put, hs] using hframe.timer s' _ _ hs (h.timer s')
  thread := by
    intro s' t ht
    by_cases hs : s' = s
    · subst hs
      simp only [Cluster.put, Function.update_self] at ht ⊢
      rcases hthread t ht with hold | hnew
      · exact hframe.same t (h.thread s' t hold)
      · exact hnew
    · simp only [Cluster.put, Function.update_of_ne hs] at ht ⊢
      exact hframe.thread s' _ t hs (h.thread s' t ht)
  msg := by
    intro m hm
    rcases List.mem_append.mp hm with hm | hm
    · exact hsent m hm
    · exact hframe.msg m (h.msg m hm)
  obs := by
    intro ob hob
    rcases List.mem_append.mp hob with hob | hob
    · exact hobs ob hob
    · exact hframe.obs ob (h.obs ob hob)

/-- What a step of a thread has to establish about its outcome. -/
structure Establishes (A : Assertions) (w' : World) (s : ServerId) (o : Outcome) : Prop where
  world : A.world w'
  server : A.server w' s o.server
  started : ∀ t ∈ o.started, A.thread w' s o.server t
  sent : ∀ m ∈ o.sent, A.msg w' m
  obs : ∀ ob ∈ o.obs, A.obs w' ob

/-- A step of the timer thread. -/
theorem Holds.timer_step {A : Assertions} {w w' : World} {σ : Cluster} (h : A.Holds w σ)
    {s : ServerId} {o : Outcome} (hframe : A.Frame w w' s (σ.node s).server o.server)
    (hout : A.Establishes w' s o) (htimer : A.timer w' s o.server o.thread) :
    A.Holds w' (σ.put s ⟨o.server, o.thread, (σ.node s).threads ++ o.started⟩ o.sent o.obs) := by
  refine h.put hframe hout.world hout.server htimer ?_ hout.sent hout.obs
  intro t ht
  exact (List.mem_append.mp ht).imp_right (hout.started t)

/-- A step of another thread. -/
theorem Holds.thread_step {A : Assertions} {w w' : World} {σ : Cluster} (h : A.Holds w σ)
    {s : ServerId} {i : ℕ} {o : Outcome} (hframe : A.Frame w w' s (σ.node s).server o.server)
    (hout : A.Establishes w' s o) (hthread : A.thread w' s o.server o.thread)
    (htimer : A.timer w' s o.server (σ.node s).timer) :
    A.Holds w' (σ.put s
      ⟨o.server, (σ.node s).timer, (σ.node s).threads.set i o.thread ++ o.started⟩
      o.sent o.obs) := by
  refine h.put hframe hout.world hout.server htimer ?_ hout.sent hout.obs
  intro t ht
  rcases List.mem_append.mp ht with ht | ht
  · rcases List.mem_or_eq_of_mem_set ht with ht | rfl
    · exact Or.inl ht
    · exact Or.inr hthread
  · exact Or.inr (hout.started t ht)

end Assertions
