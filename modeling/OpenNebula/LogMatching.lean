/-
# Log matching

If two servers have a record with the same index and the same term, they have the same
command there and the same records below, in every run in which the code stays clear of the
places where it can go wrong (`LogOk`, on top of `ElectionOk`):

* `LogDB::_exec_wr` checks for leadership, reads the term and inserts the record in three
  critical sections.  The record must be inserted while the server still leads that term.
* `ZoneAPI::replicate_log` compares the log with the request, deletes and inserts in separate
  critical sections.  What it found must still be so when it changes the log: the server does
  not lead, the previous record is there (with its term, when a record is inserted), and no
  record of another term is overwritten.
* `LogDB::insert` takes a record that is not there for a duplicate, and the replica thread sends
  one, when the database does not report that a query has found no row.

The invariant `logs` connects the logs of the servers with the ledger of the world: the logs
are chained, and the log of a leader is the leader's log of its term.
-/
import OpenNebula.ElectionSafety

open ReplicatedLog Transition

/-! ## The condition on the steps -/

/-- A record is inserted by the leader of its term, or by a handler whose comparison of the
logs is still right. -/
def LogInPlace (v : Server) : Thread → Prop
  | .writeInsert _ _ t => v.raft.state = .leader ∧ v.raft.term = t
  | .replDelete p _ => v.raft.state ≠ .leader ∧ (v.logdb.lookup p.prevIndex).isSome
  | .replInsert p _ => v.raft.state ≠ .leader ∧
      (v.logdb.lookup p.prevIndex).map LogRow.term = some p.prevTerm ∧
      ((v.logdb.lookup p.index).map LogRow.term = none ∨
        (v.logdb.lookup p.index).map LogRow.term = some p.term)
  | _ => True

instance (v : Server) (t : Thread) : Decidable (LogInPlace v t) := by
  unfold LogInPlace
  split <;> infer_instance

/-- The check for a duplicate after a failed insertion, and the replica thread, read a record
that is there, or are told that it is not. -/
def InsertFinds (v : Server) (env : Env) : Thread → Prop
  | .writeInsert _ _ _ => env.dbOk = true ∨ v.logdb.Finds env.backend v.logdb.nextIndex
  | .replInsert p _ => env.dbOk = true ∨ v.logdb.Finds env.backend p.index
  | .replicaRecord _ _ _ i => v.logdb.Finds env.backend i
  | _ => True

instance (v : Server) (env : Env) (t : Thread) : Decidable (InsertFinds v env t) := by
  unfold InsertFinds
  split <;> infer_instance

/-- The steps that log matching needs. -/
structure LogOk (Configs : List ServerId → Prop) (σ : Cluster) (e : Event) : Prop
    extends ElectionOk Configs σ e where
  log : σ.Running e (fun s t _ => LogInPlace (σ.node s).server t)
  found : σ.Running e (fun s t env => InsertFinds (σ.node s).server env t)

instance (Configs : List ServerId → Prop) [DecidablePred Configs] (σ : Cluster) (e : Event) :
    Decidable (LogOk Configs σ e) :=
  decidable_of_iff (ElectionOk Configs σ e ∧
      σ.Running e (fun s t _ => LogInPlace (σ.node s).server t) ∧
      σ.Running e (fun s t env => InsertFinds (σ.node s).server env t))
    ⟨fun h => ⟨h.1, h.2.1, h.2.2⟩, fun h => ⟨h.toElectionOk, h.log, h.found⟩⟩

/-! ## The invariant -/

/-- The parameters of a record that the log `l` holds. -/
structure IsRecord (l : List (Entry Sql)) (index term prevIndex prevTerm : ℕ) (sql : Sql) :
    Prop where
  index_le : index ≤ l.length
  term_eq : term = termAt l index
  prevIndex_eq : prevIndex = index - 1
  prevTerm_eq : prevTerm = termAt l (index - 1)
  entry : 0 < index → l[index - 1]? = some (term, sql)

/-- The parameters are those of a record of some chained log. -/
def Genuine (w : World) (index term prevIndex prevTerm : ℕ) (sql : Sql) : Prop :=
  ∃ l, Chained w.ledger.llog l ∧ IsRecord l index term prevIndex prevTerm sql

/-- A request carries a genuine record, which is not newer than the sender's term. -/
def GenuineRequest (w : World) (p : ReplicateParams) : Prop :=
  Genuine w p.index p.term p.prevIndex p.prevTerm p.sql ∧ p.term ≤ p.leaderTerm

def logMsg (w : World) : Msg → Prop
  | .replicate p => GenuineRequest w p
  | _ => True

/-- What holds at each place of a thread of a server whose term is at least `T`. -/
def logThread (w : World) : ℕ → Thread → Prop
  | T, .updateRaftState _ k => logThread w T k
  | T, .followerSetup t k => logThread w (max T t) k
  | T, .followerLock t _ k => logThread w (max T t) k
  | _, .reply m => logMsg w m
  | _, .replTerm p => GenuineRequest w p
  | T, .replCandidate p _ | T, .replHeartbeat p _ | T, .replHeartbeatCommit p _ _
  | T, .replRecord p _ | T, .replCommit p _ | T, .replApply p _ _ =>
    GenuineRequest w p ∧ p.leaderTerm ≤ T
  | T, .replPrev p _ | T, .replDelete p _ | T, .replInsert p _ =>
    GenuineRequest w p ∧ p.leaderTerm ≤ T ∧ 0 < p.index
  | T, .replicaRpc _ _ _ lr =>
    Genuine w lr.index lr.term lr.prevIndex lr.prevTerm lr.sql ∧ lr.term ≤ T
  | _, _ => True

/-- The log of a server is the one in the ledger, and the log of a leader is the leader's log
of its term. -/
structure LogServer (text : ServerId → Sql) (w : World) (s : ServerId) (v : Server) : Prop where
  log : v.logdb.Holds (text s) (w.ledger.log s)
  won : v.raft.state = .leader → w.ledger.won v.raft.term = some s
  llog : v.raft.state = .leader → w.ledger.log s = w.ledger.llog v.raft.term

/-- The invariant of log matching. -/
def logs (text : ServerId → Sql) : Assertions where
  world := fun w => Matching w.ledger
  server := LogServer text
  timer := fun w _ v t => logThread w v.raft.term t
  thread := fun w _ v t => logThread w v.raft.term t
  msg := logMsg
  obs := fun _ _ => True

/-! ## Stability -/

/-- How the ledger changes in a step of the server `s`. -/
structure LedgerStep (L L' : Ledger ServerId Sql) (s : ServerId) : Prop where
  ext : Extends L L'
  log_ne : ∀ f, f ≠ s → L'.log f = L.log f
  llog_ne : ∀ T c, L.won T = some c → c ≠ s → L'.llog T = L.llog T

theorem LedgerStep.refl (L : Ledger ServerId Sql) (s : ServerId) : LedgerStep L L s :=
  ⟨Extends.refl L, fun _ _ => rfl, fun _ _ _ _ => rfl⟩

section Stability

variable {text : ServerId → Sql} {w w' : World} {s : ServerId}

theorem Genuine.mono (h : Extends w.ledger w'.ledger) {index term prevIndex prevTerm : ℕ}
    {sql : Sql} (hg : Genuine w index term prevIndex prevTerm sql) :
    Genuine w' index term prevIndex prevTerm sql := by
  obtain ⟨l, hl, hr⟩ := hg
  exact ⟨l, hl.mono h.llog_le, hr⟩

theorem GenuineRequest.mono (h : Extends w.ledger w'.ledger) {p : ReplicateParams}
    (hg : GenuineRequest w p) : GenuineRequest w' p :=
  ⟨hg.1.mono h, hg.2⟩

theorem logMsg_mono (h : Extends w.ledger w'.ledger) {m : Msg} (hm : logMsg w m) :
    logMsg w' m := by
  cases m with
  | replicate p => exact GenuineRequest.mono h hm
  | _ => trivial

theorem logThread_mono (h : Extends w.ledger w'.ledger) (t : Thread) :
    ∀ {T T' : ℕ}, T ≤ T' → logThread w T t → logThread w' T' t := by
  induction t with
  | updateRaftState x k ih => exact fun hT ht => ih hT ht
  | followerSetup t k ih => exact fun hT ht => ih (max_le_max_right t hT) ht
  | followerLock t a k ih => exact fun hT ht => ih (max_le_max_right t hT) ht
  | reply m => exact fun _ ht => logMsg_mono h ht
  | replTerm p => exact fun _ ht => GenuineRequest.mono h ht
  | replCandidate p c => exact fun hT ht => ⟨ht.1.mono h, ht.2.trans hT⟩
  | replHeartbeat p c => exact fun hT ht => ⟨ht.1.mono h, ht.2.trans hT⟩
  | replHeartbeatCommit p c li => exact fun hT ht => ⟨ht.1.mono h, ht.2.trans hT⟩
  | replRecord p c => exact fun hT ht => ⟨ht.1.mono h, ht.2.trans hT⟩
  | replCommit p c => exact fun hT ht => ⟨ht.1.mono h, ht.2.trans hT⟩
  | replApply p c i => exact fun hT ht => ⟨ht.1.mono h, ht.2.trans hT⟩
  | replPrev p c => exact fun hT ht => ⟨ht.1.mono h, ht.2.1.trans hT, ht.2.2⟩
  | replDelete p c => exact fun hT ht => ⟨ht.1.mono h, ht.2.1.trans hT, ht.2.2⟩
  | replInsert p c => exact fun hT ht => ⟨ht.1.mono h, ht.2.1.trans hT, ht.2.2⟩
  | replicaRpc f e t lr => exact fun hT ht => ⟨ht.1.mono h, ht.2.trans hT⟩
  | _ => exact fun _ _ => trivial

theorem logs_frame (h : LedgerStep w.ledger w'.ledger s) {v v' : Server}
    (hle : v.raft.term ≤ v'.raft.term) : (logs text).Frame w w' s v v' where
  server := by
    intro s' u hne hu
    refine ⟨?_, ?_, ?_⟩
    · rw [h.log_ne s' hne]
      exact hu.log
    · intro hl
      rw [h.ext.won_le _ (by rw [hu.won hl]; simp)]
      exact hu.won hl
    · intro hl
      rw [h.log_ne s' hne, h.llog_ne _ s' (hu.won hl) hne]
      exact hu.llog hl
  timer := fun _ _ t _ ht => logThread_mono h.ext t le_rfl ht
  thread := fun _ _ t _ ht => logThread_mono h.ext t le_rfl ht
  same := fun t ht => logThread_mono h.ext t hle ht
  msg := fun _ hm => logMsg_mono h.ext hm
  obs := fun _ _ => trivial

end Stability

/-! ## What a step does to a log -/

/-- How the log `l` of a server changes in a step of a thread. -/
inductive LogChange (v : Server) (l : List (Entry Sql)) :
    Thread → Outcome → List (Entry Sql) → Prop
  | keep {t : Thread} {o : Outcome} :
      (∀ sql fed T i back, t = .writeInsert sql fed T → o.thread ≠ .register i back) →
      LogChange v l t o l
  | append {sql : Sql} {fed : Option ℕ} {o : Outcome} {i : ℕ} :
      v.raft.state = .leader → o.thread = .register i false → i = l.length + 1 →
      o.server.raft = v.raft.replicateAllocate i →
      LogChange v l (.writeInsert sql fed v.raft.term) o (l ++ [(v.raft.term, sql)])
  | truncate {p : ReplicateParams} {t : ℕ} {o : Outcome} :
      v.raft.state ≠ .leader → p.index ≤ l.length + 1 → o.thread = .replInsert p t →
      o.server.raft = v.raft → LogChange v l (.replDelete p t) o (l.take (p.index - 1))
  | insert {p : ReplicateParams} {t : ℕ} {o : Outcome} :
      v.raft.state ≠ .leader → p.index = l.length + 1 → termAt l l.length = p.prevTerm →
      o.thread = .replCommit p t → o.server.raft = v.raft →
      LogChange v l (.replInsert p t) o (l ++ [(p.term, p.sql)])

/-- The indexes of the records that a thread is about to apply. -/
def Thread.Applies : Thread → ℕ → Prop
  | .replApply _ _ c, i => i ≤ c
  | .applyRecords c _, i => i ≤ c
  | _, _ => False

section Change

variable {w : World} {s : ServerId} {v : Server} {net : List Msg} {env : Env} {t : Thread}
  {o : Outcome} {boot : Sql} {l : List (Entry Sql)}

/-- The handler's insertion, once the previous record matches and no record of another term
is in the way. -/
theorem logChange_replInsert {p : ReplicateParams} {c : ℕ} {db : LogDB}
    (hl : v.logdb.Holds boot l) (hch : Chained w.ledger.llog l)
    (hok : LogInPlace v (.replInsert p c)) (hf : InsertFinds v env (.replInsert p c))
    (ht : logThread w v.raft.term (.replInsert p c))
    (hdb : v.logdb.insertLogRecordAt env.dbOk p.index p.term p.sql 0 p.fedIndex true env.backend
      = some (db, true)) :
    ∃ l', db.Holds boot l' ∧ LogChange v l (.replInsert p c)
        (Outcome.mk' { v with logdb := db } (.replCommit p c)) l' ∧
      l'[p.index - 1]? = some (p.term, p.sql) ∧ ∀ A, v.logdb.AppliedIn A → db.AppliedIn A := by
  obtain ⟨hstate, hprev, hcur⟩ := hok
  obtain ⟨⟨⟨l₀, hch₀, hrec⟩, -⟩, -, hpos⟩ := ht
  have hprevLe : p.index ≤ l.length + 1 := by
    by_contra hlt
    rw [hrec.prevIndex_eq, hl.lookup_eq_none.mpr (by omega)] at hprev
    exact absurd hprev (by simp)
  have hprevTerm : termAt l (p.index - 1) = p.prevTerm := by
    obtain ⟨r, hr, -, hrt, -⟩ := hl.lookup_of_le (i := p.index - 1) (by omega)
    rw [hrec.prevIndex_eq, hr, Option.map_some, Option.some.injEq] at hprev
    rw [← hprev, hrt]
  rcases Nat.eq_or_lt_of_le hprevLe with htop | hlt
  · -- the record goes on top of the log
    obtain ⟨hholds, happlied⟩ := hl.insertLogRecordAt hf hdb hpos (Or.inl htop)
    rw [if_pos htop] at hholds
    rw [htop, Nat.add_sub_cancel] at hprevTerm
    refine ⟨_, hholds, .insert hstate htop hprevTerm rfl rfl, ?_, happlied⟩
    rw [htop, Nat.add_sub_cancel]
    simp
  · -- the record is there already
    have hterm : termAt l p.index = termAt l₀ p.index := by
      obtain ⟨r, hr, -, hrt, -⟩ := hl.lookup_of_le (i := p.index) (by omega)
      rw [hr, Option.map_some] at hcur
      rcases hcur with hcur | hcur
      · exact absurd hcur (by simp)
      · rw [← hrt, Option.some.inj hcur, hrec.term_eq]
    have htake := hch.take_eq_of_termAt hch₀ (by omega) hrec.index_le hterm
    have hentry : l[p.index - 1]? = some (p.term, p.sql) := by
      have h1 : (l.take p.index)[p.index - 1]? = l[p.index - 1]? := by
        rw [List.getElem?_take, if_pos (by omega)]
      have h2 : (l₀.take p.index)[p.index - 1]? = l₀[p.index - 1]? := by
        rw [List.getElem?_take, if_pos (by omega)]
      rw [← h1, htake, h2]
      exact hrec.entry hpos
    obtain ⟨hholds, happlied⟩ := hl.insertLogRecordAt hf hdb hpos (Or.inr hentry)
    rw [if_neg (by omega)] at hholds
    exact ⟨l, hholds, .keep (by simp), hentry, happlied⟩

/-- **What a step does to the log of a server**, and that it marks no other records as applied
than those it applies. -/
theorem logChange_of_step (hl : v.logdb.Holds boot l) (hch : Chained w.ledger.llog l)
    (hok : LogInPlace v t) (hf : InsertFinds v env t) (ht : logThread w v.raft.term t)
    (h : ThreadStep s v net env t o) :
    ∃ l', o.server.logdb.Holds boot l' ∧ LogChange v l t o l' ∧
      ∀ A : ℕ → Prop, v.logdb.AppliedIn A →
        (∀ i, t.Applies i → A i ∧ (v.logdb.lastApplied < i → v.logdb.Finds env.backend i)) →
        o.server.logdb.AppliedIn A := by
  cases h with
  | followerSetup t k =>
    exact ⟨l, (hl.rows.setupIndex _).1, .keep (by simp),
      fun A hA _ => (LogDB.AppliedIn.setupIndex hl.rows hA.rows _).1⟩
  | leaderSetup t granted =>
    exact ⟨l, (hl.rows.setupIndex _).1, .keep (by simp),
      fun A hA _ => (LogDB.AppliedIn.setupIndex hl.rows hA.rows _).1⟩
  | replApply p t c =>
    exact ⟨l, hl.applyLogRecords_holds _ _ _ _ _, .keep (by simp), fun A hA hc =>
      (hl.applyLogRecords hA (fun i hi => (hc i hi).1) (fun i hi => (hc i hi).2) _ _ _).1⟩
  | applyRecords i back =>
    exact ⟨l, hl.applyLogRecords_holds _ _ _ _ _, .keep (by simp), fun A hA hc =>
      (hl.applyLogRecords hA (fun i hi => (hc i hi).1) (fun i hi => (hc i hi).2) _ _ _).1⟩
  | replDelete p c =>
    obtain ⟨hstate, hprev⟩ := hok
    obtain ⟨⟨⟨l₀, -, hrec⟩, -⟩, -, hpos⟩ := ht
    have hle : p.index ≤ l.length + 1 := by
      by_contra hlt
      rw [hrec.prevIndex_eq, hl.lookup_eq_none.mpr (by omega)] at hprev
      exact absurd hprev (by simp)
    cases hdb : env.dbOk with
    | true =>
      obtain ⟨hholds, happlied⟩ := hl.deleteLogRecords hpos hle env.backend
      exact ⟨_, hholds, .truncate hstate hle rfl rfl, fun A hA _ => happlied A hA⟩
    | false => exact ⟨l, hl, .keep (by simp), fun A hA _ => hA⟩
  | replInsert p c db hdb =>
    obtain ⟨l', hl', hchange, -, happlied⟩ := logChange_replInsert hl hch hok hf ht hdb
    exact ⟨l', hl', hchange, fun A hA _ => happlied A hA⟩
  | writeInsert sql fed t db i hdb =>
    obtain ⟨hstate, rfl⟩ := hok
    obtain ⟨hi, hholds, happlied⟩ := hl.insertLogRecord hf hdb
    exact ⟨_, hholds, .append hstate rfl hi rfl, fun A hA _ => happlied A hA⟩
  | goto hg =>
    refine ⟨l, hl, .keep ?_, fun A hA _ => hA⟩
    rintro sql fed T i back rfl
    cases hg
  | finish pending reconciling _ =>
    exact ⟨l, hl, .keep (by simp [Outcome.mk']), fun A hA _ => hA⟩
  | _ => exact ⟨l, hl, .keep (by simp), fun A hA _ => hA⟩

end Change

/-! ## What a step does to the ledger -/

/-- How the ledger changes when the log of the server `s` becomes `l'`. -/
inductive LedgerChange (L : Ledger ServerId Sql) (s : ServerId) (v : Server) (t : Thread)
    (o : Outcome) (l' : List (Entry Sql)) : Ledger ServerId Sql → Prop
  | elect : World.Elected v o → (∃ T g a i, t = .leaderLock T g a i) → l' = L.log s →
      LedgerChange L s v t o l' ((L.elect s).accept s (L.log s).length)
  | append (sql : Sql) : v.raft.state = .leader → o.server.raft.state = .leader →
      l' = L.log s ++ [(L.term s, sql)] →
      LedgerChange L s v t o l' ((L.append s sql).accept s ((L.log s).length + 1))
  | move : ¬ World.Elected v o → World.acknowledged t o.thread = none →
      (v.raft.state = .leader → l' = L.log s) → Chained L.llog l' →
      (∀ e ∈ l', e.1 ≤ o.server.raft.term) →
      LedgerChange L s v t o l' (L.move s o.server.raft.term l')
  | acknowledge (i : ℕ) : ¬ World.Elected v o → World.acknowledged t o.thread = some i →
      (v.raft.state = .leader → l' = L.log s) → Chained L.llog l' →
      (∀ e ∈ l', e.1 ≤ o.server.raft.term) →
      LedgerChange L s v t o l' ((L.move s o.server.raft.term l').accept s i)

section LedgerChange

variable {w : World} {s : ServerId} {v : Server} {net : List Msg} {env : Env} {t : Thread}
  {o : Outcome} {l' : List (Entry Sql)}

/-- The log of a leader changes only by an append. -/
theorem LogChange.leader {l : List (Entry Sql)} (h : LogChange v l t o l')
    (hl : v.raft.state = .leader)
    (hne : ∀ sql fed T i back, t = .writeInsert sql fed T → o.thread ≠ .register i back) :
    l' = l := by
  cases h with
  | keep _ => rfl
  | append _ hreg _ _ => exact absurd hreg (hne _ _ _ _ _ rfl)
  | truncate hstate _ _ _ => exact absurd hl hstate
  | insert hstate _ _ _ _ => exact absurd hl hstate

/-- The log after a step that appends nothing is chained, and its terms are not from the
future. -/
theorem LogChange.chained (hm : Matching w.ledger) (hterm : w.ledger.term s = v.raft.term)
    (ht : logThread w v.raft.term t) (hle : v.raft.term ≤ o.server.raft.term)
    (h : LogChange v (w.ledger.log s) t o l')
    (hne : ∀ sql fed T i back, t = .writeInsert sql fed T → o.thread ≠ .register i back) :
    Chained w.ledger.llog l' ∧ ∀ e ∈ l', e.1 ≤ o.server.raft.term := by
  have hch := hm.log_chained s
  have hold : ∀ e ∈ w.ledger.log s, e.1 ≤ o.server.raft.term := by
    intro e he
    have := hm.log_term s e he
    omega
  cases h with
  | keep _ => exact ⟨hch, hold⟩
  | append _ hreg _ _ => exact absurd hreg (hne _ _ _ _ _ rfl)
  | truncate _ _ _ _ =>
    exact ⟨hch.of_isPrefix (List.take_prefix _ _), fun e he => hold e (List.mem_of_mem_take he)⟩
  | @insert p c _ _ hidx hprev _ _ =>
    obtain ⟨⟨⟨l₀, hch₀, hrec⟩, hpt⟩, hlt, hpos⟩ := ht
    have he : l₀[(w.ledger.log s).length]? = some (p.term, p.sql) := by
      have := hrec.entry hpos
      rwa [hidx, Nat.add_sub_cancel] at this
    have hprev' : termAt (w.ledger.log s) (w.ledger.log s).length =
        termAt l₀ (w.ledger.log s).length := by
      rw [hprev, hrec.prevTerm_eq, hidx, Nat.add_sub_cancel]
    refine ⟨?_, ?_⟩
    · rw [hch.splice hch₀ he hprev']
      exact hch₀.of_isPrefix (List.take_prefix _ _)
    · intro e he
      rcases List.mem_append.mp he with he | he
      · exact hold e he
      · rw [List.mem_singleton.mp he]
        exact (hpt.trans hlt).trans hle

/-- **What a step does to the ledger.** -/
theorem ledgerChange_of_step (hm : Matching w.ledger) (hterm : w.ledger.term s = v.raft.term)
    (ht : logThread w v.raft.term t) {boot : Sql} (hl' : o.server.logdb.Holds boot l')
    (hchange : LogChange v (w.ledger.log s) t o l') (h : ThreadStep s v net env t o) :
    LedgerChange w.ledger s v t o l' (w.next s v t o).ledger := by
  have hlog := hl'.log_eq
  have hterms := World.next_term hterm h
  unfold World.next World.nextLedger at hterms ⊢
  dsimp only at hterms ⊢
  split at hterms
  · -- `RaftManager::leader`
    rename_i T g a i
    have hkeep : l' = w.ledger.log s := by
      cases hchange with
      | keep _ => rfl
    split at hterms
    · rename_i helected
      rw [if_pos helected]
      exact .elect helected ⟨_, _, _, _, rfl⟩ hkeep
    · rename_i helected
      have hsame : w.ledger.term s = o.server.raft.term := by
        rw [hterms, Function.update_self]
      have hmove : w.ledger.move s o.server.raft.term l' = w.ledger := by
        rw [← hsame, hkeep, Ledger.move, Function.update_eq_self, Function.update_eq_self]
      have hres : LedgerChange w.ledger s v (.leaderLock T g a i) o l'
          (w.ledger.move s o.server.raft.term l') := by
        refine .move helected rfl (fun _ => hkeep) (hkeep ▸ hm.log_chained s) ?_
        rw [← hsame, hkeep]
        exact hm.log_term s
      rw [hmove] at hres
      rw [if_neg helected]
      exact hres
  · -- `LogDB::_exec_wr`
    rename_i sql fed T i back hthread
    cases hchange with
    | keep hne => exact absurd hthread (hne _ _ _ _ _ rfl)
    | append hlead hreg hi hraft =>
      refine .append sql hlead ?_ ?_
      · rw [hraft]
        exact hlead
      · rw [hterm]
  · rename_i hleader hwrite
    have hleaders : v.raft.state = .leader → l' = w.ledger.log s :=
      fun hlead => hchange.leader hlead hwrite
    obtain ⟨hch, hbound⟩ := hchange.chained hm hterm ht h.term_le hwrite
    have helected : ¬ World.Elected v o := by
      rintro ⟨hc, hl⟩
      rcases (h.leader_cases hl).2 with hlead | ⟨-, T, g, a, i, heq⟩
      · rw [hc] at hlead
        exact absurd hlead (by simp)
      · exact hleader T g a i heq
    rw [hlog]
    split
    · rename_i i hack
      exact .acknowledge i helected hack hleaders hch hbound
    · rename_i hack
      exact .move helected hack hleaders hch hbound

/-- The ledger after a step is matching, and it extends the one before. -/
theorem LedgerChange.matching {L L' : Ledger ServerId Sql} (hm : Matching L)
    (hterm : L.term s = v.raft.term) (hle : v.raft.term ≤ o.server.raft.term)
    (hwon : v.raft.state = .leader → L.won v.raft.term = some s)
    (hllog : v.raft.state = .leader → L.log s = L.llog v.raft.term)
    (hnew : World.Elected v o → (∃ T g a i, t = .leaderLock T g a i) →
      L.won v.raft.term = none)
    (h : LedgerChange L s v t o l' L') :
    Matching L' ∧ LedgerStep L L' s ∧ L'.log s = l' := by
  have hmove : LedgerStep L (L.move s o.server.raft.term l') s := by
    refine ⟨extends_move (hterm ▸ hle), ?_, fun _ _ _ _ => rfl⟩
    intro f hf
    simp [Ledger.move, hf]
  cases h with
  | elect helected ht hl =>
    have hnone : L.won (L.term s) = none := hterm ▸ hnew helected ht
    refine ⟨(hm.elect hnone).accept s _, ⟨?_, fun f _ => rfl, ?_⟩, hl.symm⟩
    · exact (extends_elect hm hnone).trans (extends_accept _ s _)
    · intro T c hT _
      have hne : T ≠ L.term s := by
        intro heq
        rw [heq, hnone] at hT
        exact absurd hT (by simp)
      simp [Ledger.accept, Ledger.elect, hne]
  | append sql hlead hlead' hl =>
    have hwon' : L.won (L.term s) = some s := hterm ▸ hwon hlead
    have hllog' : L.log s = L.llog (L.term s) := hterm ▸ hllog hlead
    refine ⟨(hm.append sql (by simp [hwon']) hllog').accept s _, ⟨?_, ?_, ?_⟩, ?_⟩
    · exact (extends_append sql hllog').trans (extends_accept _ s _)
    · intro f hf
      simp [Ledger.accept, Ledger.append, hf]
    · intro T c hT hc
      have hne : T ≠ L.term s := by
        intro heq
        rw [heq, hwon'] at hT
        exact hc (Option.some.inj hT).symm
      simp [Ledger.accept, Ledger.append, hne]
    · simp [Ledger.accept, Ledger.append, hl]
  | move _ _ _ hch hbound =>
    exact ⟨hm.move (hterm ▸ hle) hch hbound, hmove, by simp [Ledger.move]⟩
  | acknowledge i _ _ _ hch hbound =>
    refine ⟨(hm.move (hterm ▸ hle) hch hbound).accept s i, ⟨?_, hmove.log_ne, fun _ _ _ _ => rfl⟩, ?_⟩
    · exact hmove.ext.trans (extends_accept _ s i)
    · simp [Ledger.accept, Ledger.move]

end LedgerChange

/-! ## Every step keeps the invariant -/

section Step

variable {Configs : List ServerId → Prop} {text : ServerId → Sql} {w w' : World}
  {σ σ' : Cluster} {s : ServerId} {v : Server} {net : List Msg} {env : Env} {t t' : Thread}
  {o : Outcome} {e : Event}

theorem logThread_dispatch {T : ℕ} {p : ReplicateParams} (c : ℕ)
    (h : GenuineRequest w p ∧ p.leaderTerm ≤ T) : logThread w T (Thread.replDispatch p c) := by
  unfold Thread.replDispatch
  split
  · exact h
  · split
    · trivial
    · split
      · rename_i hpos
        exact ⟨h.1, h.2, hpos⟩
      · exact h

theorem logThread_voteNext {T : ℕ} {servers todo granted : List ServerId} {c n li lt : ℕ} :
    logThread w T (Thread.voteNext servers c n li lt todo granted) := by
  unfold Thread.voteNext
  split
  · trivial
  · split <;> trivial

/-- A record read from the log is genuine. -/
theorem genuine_of_getLogRecord (hm : Matching w.ledger) {boot : Sql} {i : ℕ} {lr : LogDBRecord}
    (hl : v.logdb.Holds boot (w.ledger.log s)) {b : Backend} (hf : v.logdb.Finds b i)
    (hlr : v.logdb.getLogRecord i (LogDB.pred64 i) b = some lr) :
    Genuine w lr.index lr.term lr.prevIndex lr.prevTerm lr.sql ∧ lr.term ≤ w.ledger.term s := by
  obtain ⟨rfl, hle, hprev, hterm, hpt, hent⟩ := hl.getLogRecord_some hf hlr
  refine ⟨⟨w.ledger.log s, hm.log_chained s, ⟨hle, hterm, hprev, hpt, hent⟩⟩, ?_⟩
  rcases Nat.eq_zero_or_pos lr.index with h0 | hpos
  · rw [hterm, h0]
    exact Nat.zero_le _
  · exact hm.log_term s _ (List.mem_of_getElem? (hent hpos))

theorem logThread_goto (hm : Matching w.ledger) (hterm : w.ledger.term s = v.raft.term)
    {boot : Sql} (hl : v.logdb.Holds boot (w.ledger.log s)) (hf : InsertFinds v env t)
    (ht : logThread w v.raft.term t) (h : Goto s v net env t t') : logThread w v.raft.term t' := by
  cases h with
  | replNewTerm hlt => exact ⟨ht, le_max_right _ _⟩
  | replSameTerm heq => exact ⟨ht, heq.ge⟩
  | replCandidate _ => exact logThread_dispatch _ ⟨ht.1, ht.2.trans (le_max_left _ _)⟩
  | replNotCandidate _ => exact logThread_dispatch _ ht
  | replHeartbeat => exact ht
  | replPrev _ _ => exact ⟨ht.1, ht.2.1⟩
  | replMissing hlr =>
    have := hl.lt_of_getLogRecord_none hlr
    exact ⟨ht.1, ht.2, by omega⟩
  | @replConflict p _ lr hlr hne =>
    refine ⟨ht.1, ht.2, ?_⟩
    -- the record `0` is there, and has term `0` in every log
    by_contra h0
    have hidx : p.index = 0 := by omega
    obtain ⟨-, -, -, hlrt, -⟩ := hl.getLogRecord_some (hl.finds env.backend (by omega)) hlr
    obtain ⟨⟨l₀, -, hrec⟩, -⟩ := ht.1
    rw [hlrt, hrec.term_eq, hidx] at hne
    exact hne rfl
  | replicaRecord hlr => exact hterm ▸ genuine_of_getLogRecord hm hl hf hlr
  | voteAlone => exact logThread_voteNext
  | voteSkip => exact logThread_voteNext
  | voteDenied => exact logThread_voteNext
  | voteGranted _ => exact logThread_voteNext
  | _ => trivial

/-- The place a thread goes to keeps its assertion, and what is sent is genuine. -/
theorem logThread_step (hm : Matching w.ledger) (hterm : w.ledger.term s = v.raft.term)
    {boot : Sql} (hl : v.logdb.Holds boot (w.ledger.log s)) (hf : InsertFinds v env t)
    (ht : logThread w v.raft.term t) (h : ThreadStep s v net env t o) :
    logThread w o.server.raft.term o.thread ∧ (∀ m ∈ o.sent, logMsg w m) ∧
      ∀ t' ∈ o.started, logThread w o.server.raft.term t' := by
  cases h with
  | goto hg =>
    exact ⟨logThread_goto hm hterm hl hf ht hg, by simp [Outcome.mk'], by simp [Outcome.mk']⟩
  | reply m =>
    refine ⟨trivial, ?_, by simp [Outcome.send]⟩
    intro m' hm'
    rw [Outcome.send, List.mem_singleton] at hm'
    rw [hm']
    exact ht
  | updateRaftState x k => exact ⟨ht, by simp [Outcome.mk'], by simp [Outcome.mk']⟩
  | followerSetup t k => exact ⟨ht, by simp [Outcome.mk'], by simp [Outcome.mk']⟩
  | followerNewTerm t a k _ =>
    refine ⟨?_, by simp [Outcome.mk'], by simp [Outcome.mk']⟩
    show logThread w (v.raft.follower t a).1.term k
    rw [follower_term]
    exact ht
  | followerSameTerm t a k _ =>
    refine ⟨?_, by simp [Outcome.mk'], by simp [Outcome.mk']⟩
    show logThread w (v.raft.follower t a).1.term k
    rw [follower_term]
    exact ht
  | voteSend servers t n li lt f rest granted =>
    exact ⟨trivial, by simp [Outcome.send, logMsg], by simp [Outcome.send]⟩
  | heartbeatCommit p c li => exact ⟨ht, by simp [Outcome.mk'], by simp [Outcome.mk']⟩
  | replDelete p c => exact ⟨ht, by simp [Outcome.mk'], by simp [Outcome.mk']⟩
  | replInsert p c db _ => exact ⟨⟨ht.1, ht.2.1⟩, by simp [Outcome.mk'], by simp [Outcome.mk']⟩
  | replCommit p c => exact ⟨ht, by simp [Outcome.mk'], by simp [Outcome.mk']⟩
  | replicaSend f e c lr _ =>
    refine ⟨trivial, ?_, by simp [Outcome.send]⟩
    intro m hm'
    rw [Outcome.send, List.mem_singleton] at hm'
    rw [hm']
    exact ht
  | beatSend f c =>
    refine ⟨trivial, ?_, by simp [Outcome.send]⟩
    intro m hm'
    rw [Outcome.send, List.mem_singleton] at hm'
    rw [hm']
    exact ⟨⟨[], chained_nil _, ⟨le_rfl, rfl, rfl, rfl, fun h0 => absurd h0 (lt_irrefl 0)⟩⟩,
      Nat.zero_le _⟩
  | leaderLock t granted applied index r i hr =>
    refine ⟨trivial, by simp, ?_⟩
    intro t' ht'
    obtain ⟨j, rfl, rfl⟩ := Option.mem_map.mp (Option.mem_toList.mp ht')
    trivial
  | applyRecords i back =>
    refine ⟨?_, by simp, by simp⟩
    show logThread w _ (if back then .reconciled else .done)
    split <;> trivial
  | _ => exact ⟨trivial, by simp [Outcome.mk'], by simp [Outcome.mk']⟩

/-- The steps of a thread keep the invariant; `hnew` says that a leader is elected in a term
without a winner. -/
theorem logs_step (hm : Matching w.ledger) (hterm : w.ledger.term s = v.raft.term)
    (hs : LogServer text w s v) (hok : LogInPlace v t) (hf : InsertFinds v env t)
    (ht : logThread w v.raft.term t)
    (hnew : World.Elected v o → (∃ T g a i, t = .leaderLock T g a i) →
      w.ledger.won v.raft.term = none)
    (h : ThreadStep s v net env t o) :
    LedgerStep w.ledger (w.next s v t o).ledger s ∧
      (logs text).Establishes (w.next s v t o) s o ∧
      logThread (w.next s v t o) o.server.raft.term o.thread := by
  obtain ⟨l', hl', hchange, -⟩ := logChange_of_step hs.log (hm.log_chained s) hok hf ht h
  have hledger := ledgerChange_of_step hm hterm ht hl' hchange h
  obtain ⟨hm', hstep, hlog⟩ := hledger.matching hm hterm h.term_le hs.won hs.llog hnew
  obtain ⟨hthread, hsent, hstarted⟩ := logThread_step hm hterm hs.log hf ht h
  refine ⟨hstep, ⟨hm', ⟨hlog ▸ hl', ?_, ?_⟩, ?_, ?_, fun _ _ => trivial⟩,
    logThread_mono hstep.ext _ le_rfl hthread⟩
  · intro hl
    obtain ⟨heq, hcases⟩ := h.leader_cases hl
    rw [heq]
    rcases hcases with hlead | ⟨hc, T, g, a, i, rfl⟩
    · rw [hstep.ext.won_le _ (by simp [hs.won hlead])]
      exact hs.won hlead
    · have helected : World.Elected v o := ⟨hc, hl⟩
      simp [World.next, World.nextLedger, helected, Ledger.accept, Ledger.elect, hterm]
  · intro hl
    obtain ⟨heq, hcases⟩ := h.leader_cases hl
    rw [heq, hlog, ← hterm]
    -- the log of a leader only changes together with the leader's log
    generalize (w.next s v t o).ledger = L' at hledger
    cases hledger with
    | elect _ _ heql => simp [Ledger.accept, Ledger.elect, heql]
    | append sql _ _ heql => simp [Ledger.accept, Ledger.append, heql]
    | move hne _ hkeep _ _ =>
      rcases hcases with hlead | ⟨hc, -⟩
      · rw [hkeep hlead, hterm]
        exact hs.llog hlead
      · exact absurd ⟨hc, hl⟩ hne
    | acknowledge i hne _ hkeep _ _ =>
      rcases hcases with hlead | ⟨hc, -⟩
      · rw [hkeep hlead, hterm]
        exact hs.llog hlead
      · exact absurd ⟨hc, hl⟩ hne
  · exact fun t' ht' => logThread_mono hstep.ext _ le_rfl (hstarted t' ht')
  · exact fun m hm'' => logMsg_mono hstep.ext (hsent m hm'')

/-- **Every step keeps the invariant of log matching.** -/
theorem logs_move (hconf : ZoneConfigs Configs) (he : (election Configs).Holds w σ)
    (h : (logs text).Holds w σ) (hok : LogOk Configs σ e) (hmove : Cluster.Move w σ e σ' w') :
    (logs text).Holds w' σ' := by
  cases hmove with
  | timeout s servers htimer hstate =>
    have hs := h.server s
    exact h.put (logs_frame (LedgerStep.refl w.ledger s) le_rfl) h.world
      ⟨hs.log, fun hl => absurd hl (by simp), fun hl => absurd hl (by simp)⟩ trivial
      (fun t ht => Or.inl ht) (by simp) (by simp)
  | timer s env o hstep =>
    have hrun : σ.running (.timer s env) = some (s, (σ.node s).timer, env) := rfl
    obtain ⟨hl, hout, ht⟩ := logs_step h.world (he.server s).term (h.server s) (hok.log.elim hrun)
      (hok.found.elim hrun) (h.timer s) (by
        rintro ⟨hc, -⟩ ⟨T, g, a, i, heq⟩
        have htimer : electionTimer Configs w s (σ.node s).server (.leaderLock T g a i) :=
          heq ▸ he.timer s
        exact electionTimer.won_none hconf he.world (he.server s) htimer hc) hstep
    exact h.timer_step (logs_frame hl hstep.term_le) hout ht
  | thread s i env t o hi hstep =>
    have hmem := List.mem_of_getElem? hi
    have hrun := Cluster.running_thread hi env
    obtain ⟨hl, hout, ht⟩ := logs_step h.world (he.server s).term (h.server s) (hok.log.elim hrun)
      (hok.found.elim hrun) (h.thread s t hmem) (by
        rintro - ⟨T, g, a, i, rfl⟩
        exact False.elim (he.thread s _ hmem)) hstep
    exact h.thread_step (logs_frame hl hstep.term_le) hout ht
      (logThread_mono hl.ext _ hstep.term_le (h.timer s))
  | start e s t pending hstart =>
    have hs := h.server s
    refine h.put (logs_frame (LedgerStep.refl w.ledger s) le_rfl) h.world
      ⟨hs.log, hs.won, hs.llog⟩ (h.timer s) ?_ (by simp) (by simp)
    intro t' ht'
    refine (List.mem_append.mp ht').imp_right ?_
    intro heq
    rw [List.mem_singleton.mp heq]
    cases hstart with
    | replicate hm hdst => exact h.msg _ hm
    | _ => trivial
  | restart s servers now text' =>
    have hs := h.server s
    have hrow : (σ.node s).server.row.attributes =
        ⟨(σ.node s).server.raft.term, (σ.node s).server.raft.votedfor⟩ := hok.event
    refine h.put (logs_frame (LedgerStep.refl w.ledger s) ?_) h.world
      ⟨hs.log.rows.construct_holds _ _ _ _ _, ?_, ?_⟩ trivial (by simp) (by simp) (by simp)
    · show _ ≤ (σ.node s).server.row.attributes.term
      rw [hrow]
    · intro hl
      exact absurd hl (by simp [Cluster.restarted, RaftManager.construct])
    · intro hl
      exact absurd hl (by simp [Cluster.restarted, RaftManager.construct])

theorem logs_init (zone : List ServerId) (text : ServerId → Sql) :
    (logs text).Holds World.init (Cluster.init zone text) where
  world := ⟨fun _ => chained_nil _, fun _ => chained_nil _, fun _ e he => absurd he (by
    simp [World.init]), fun _ e he => absurd he (by simp [World.init]), fun _ _ => rfl⟩
  server := fun s => ⟨(LogDB.construct_nil 250000 100000 true one_ne_zero (text s)).1,
    fun hl => absurd hl (by simp [Cluster.init, RaftManager.construct]),
    fun hl => absurd hl (by simp [Cluster.init, RaftManager.construct])⟩
  timer := fun s => trivial
  thread := fun s t ht => absurd ht (by simp [Cluster.init])
  msg := fun m hm => absurd hm (by simp [Cluster.init])
  obs := fun _ _ => trivial

/-- In every state of a run there is a world with both invariants. -/
theorem logs_reach (hconf : ZoneConfigs Configs) (zone : List ServerId)
    (hrun : Reach Cluster.step (LogOk Configs) (Cluster.init zone text) σ) :
    ∃ w, (election Configs).Holds w σ ∧ (logs text).Holds w σ := by
  refine hrun.inv (P := fun σ => ∃ w, (election Configs).Holds w σ ∧ (logs text).Holds w σ)
    ⟨World.init, election_init Configs zone text, logs_init zone text⟩ ?_
  rintro σ₁ e σ₂ ⟨w₁, he, hl⟩ hok hstep
  obtain ⟨w₂, hmove⟩ := Cluster.step_cases w₁ hstep
  exact ⟨w₂, (election_move hconf he hok.toElectionOk hmove).1, logs_move hconf he hl hok hmove⟩

end Step

/-! ## Log matching -/

/-- **Log matching.**  In every run whose steps meet `LogOk`: if the logs of two servers have
a record with the same index and the same term, it has the same command and the logs agree on
all records below.  The record `0` is written by each server when it is started for the first
time, and it is only the same if its text is. -/
theorem log_agree_of_logOk {zone : List ServerId} (hzone : zone.Nodup) (text : ServerId → Sql)
    {σ : Cluster} (hrun : Reach Cluster.step (LogOk (· = zone)) (Cluster.init zone text) σ)
    {s s' : ServerId} {i t : ℕ} {x x' : Sql} (hi : 0 < i)
    (h : (σ.node s).server.logdb.entry i = some (t, x))
    (h' : (σ.node s').server.logdb.entry i = some (t, x')) :
    x = x' ∧ ∀ j, j < i → 0 < j ∨ text s = text s' →
      (σ.node s).server.logdb.entry j = (σ.node s').server.logdb.entry j := by
  obtain ⟨w, -, hw⟩ := logs_reach (zoneConfigs_fixed hzone) zone hrun
  obtain ⟨k, rfl⟩ := Nat.exists_eq_succ_of_ne_zero hi.ne'
  have hlog := (hw.server s).log
  have hlog' := (hw.server s').log
  rw [Nat.succ_eq_add_one, hlog.succ k] at h
  rw [Nat.succ_eq_add_one, hlog'.succ k] at h'
  have htake := (hw.world.log_chained s).take_eq (hw.world.log_chained s') h h' rfl
  have hagree : ∀ j, j ≤ k → (w.ledger.log s)[j]? = (w.ledger.log s')[j]? := by
    intro j hj
    have h1 := congrArg (fun l => l[j]?) htake
    simpa [List.getElem?_take, Nat.lt_succ_of_le hj] using h1
  refine ⟨?_, ?_⟩
  · have hk := hagree k le_rfl
    rw [h, h'] at hk
    exact (Prod.mk.inj (Option.some.inj hk)).2
  · intro j hj hzero
    cases j with
    | zero =>
      obtain ⟨r, hr, ht, hx, -⟩ := hlog.zero
      obtain ⟨r', hr', ht', hx', -⟩ := hlog'.zero
      have htext := hzero.resolve_left (lt_irrefl 0)
      rw [LogDB.entry, LogDB.entry, hr, hr', Option.map_some, Option.map_some, ht, ht', hx, hx',
        htext]
    | succ j =>
      rw [hlog.succ j, hlog'.succ j]
      exact hagree j (by omega)

/-- Server `0` wins term 1 and its record is replicated to server `1`. -/
def replicationRun : List (ℕ × Event) :=
  electionRun.append [(1, .write 0 ['X'] none), (4, .thread 0 0 .calm), (1, .wake 0 1),
    (4, .thread 0 1 .calm), (1, .recvReplicate 1 ⟨0, 1, 0, 1, 1, 1, 0, 0, none, ['X']⟩),
    (8, .thread 1 1 .calm)]

theorem log_agree_replicationRun :
    ∃ σ, Reach Cluster.step (LogOk (· = [0, 1, 2])) (Cluster.init [0, 1, 2] (fun _ => ['0'])) σ ∧
      (σ.node 0).server.logdb.entry 1 = some (1, ['X']) ∧
      (σ.node 1).server.logdb.entry 1 = some (1, ['X']) ∧
      ∀ j, j < 1 → (σ.node 0).server.logdb.entry j = (σ.node 1).server.logdb.entry j := by
  have hrun : ((runChecked Cluster.step (LogOk (· = [0, 1, 2]))
      (Cluster.init [0, 1, 2] (fun _ => ['0'])) (repeated replicationRun)).map
        (fun σ => ((σ.node 0).server.logdb.entry 1, (σ.node 1).server.logdb.entry 1))) =
      some (some (1, ['X']), some (1, ['X'])) := by decide
  obtain ⟨σ, hσ, heq⟩ := Option.map_eq_some_iff.mp hrun
  obtain ⟨h0, h1⟩ := Prod.mk.inj heq
  have hreach := reach_of_runChecked _ hσ
  have hagree := (log_agree_of_logOk (by decide) (fun _ => ['0']) hreach one_pos h0 h1).2
  exact ⟨σ, hreach, h0, h1, fun j hj => hagree j hj (Or.inr rfl)⟩

/-- The run in which two servers have different commands for one index and one term.  A writer
of server `0` has found that its server leads term 1; the server then votes in term 2, the
writer reads this term and inserts its record, and so does the leader of term 2. -/
def staleWriterRun : List (ℕ × Event) :=
  electionRun.append [(1, .write 0 ['X'] none), (1, .thread 0 0 .calm), (1, .timeout 2 [0, 1, 2]),
    (13, .timer 2 .calm), (1, .recvVote 0 ⟨2, 0, 2, 0, 0⟩), (8, .thread 0 1 .calm),
    (1, .timer 2 (.answer true 1)), (2, .timer 2 .calm), (2, .thread 0 0 .calm),
    (1, .write 2 ['Y'] none), (3, .thread 2 0 .calm)]

/-- Without the condition, one index and one term can have two commands. -/
theorem two_commands_for_one_record :
    ¬ ∀ σ, Reach Cluster.step (fun _ e => e.inZone [0, 1, 2] = true)
        (Cluster.init [0, 1, 2] (fun _ => ['0'])) σ →
      ∀ s s' i t x x', 0 < i → (σ.node s).server.logdb.entry i = some (t, x) →
        (σ.node s').server.logdb.entry i = some (t, x') → x = x' := by
  intro h
  have hrun : ((runEvents Cluster.step (Cluster.init [0, 1, 2] (fun _ => ['0']))
      (repeated staleWriterRun)).map
        (fun σ => ((σ.node 0).server.logdb.entry 1, (σ.node 2).server.logdb.entry 1))) =
      some (some (2, ['X']), some (2, ['Y'])) := by decide
  obtain ⟨σ, hσ, heq⟩ := Option.map_eq_some_iff.mp hrun
  obtain ⟨h0, h2⟩ := Prod.mk.inj heq
  have hzone : ∀ e ∈ repeated staleWriterRun, e.inZone [0, 1, 2] = true := by decide
  exact absurd (h σ (reach_of_runEvents _ hzone hσ) 0 2 1 2 _ _ one_pos h0 h2) (by decide)
