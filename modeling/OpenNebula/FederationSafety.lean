/-
# Safety of the federation

A federated record is in the federated log of the master as soon as it is inserted, before Raft
commits it, and the thread of a slave zone reads that log on its own schedule.  So a slave can
execute a record that the master zone then loses with a change of leader.

Here the master zone is the zone of `RaftCluster.lean`, with the replication of its federated log
on top.  In every run in which `get_next_record` reads the log of a server while all the federated
records of that log are applied (`FedOk`), and the zone stays clear of the places of
`StateMachineSafety.lean`, every record that is sent, and every record that a slave executes, is one
that the master zone has applied and never gives up.
-/
import OpenNebula.FedOrder
import OpenNebula.StateMachineSafety

open ReplicatedLog Transition

/-! ## The system -/

/-- The master zone and the replication of its federated log. -/
structure MasterZone where
  zone : Cluster
  fed : Federation

/-- A step of the master zone, or of the replication. -/
inductive MasterEvent where
  | zone (e : Event)
  | fed (e : FedEvent)

/-- One step; the threads for the slave zones read the log of the server they run on. -/
def MasterZone.step (σ : MasterZone) : MasterEvent → Option MasterZone
  | .zone e => (σ.zone.step e).map (fun c => { σ with zone := c })
  | .fed e =>
    (σ.fed.step (fun s => (σ.zone.node s).server.logdb) e).map (fun φ => { σ with fed := φ })

/-- Every federated record of the log is applied. -/
def LogDB.AllApplied (l : LogDB) : Prop :=
  ∀ f ∈ l.fedLog, (l.lookup f).map LogRow.applied = some true

instance (l : LogDB) : Decidable l.AllApplied :=
  inferInstanceAs (Decidable (∀ f ∈ l.fedLog, _))

/-- The steps that the safety of the federation needs. -/
def FedOk (Configs : List ServerId → Prop) (σ : MasterZone) : MasterEvent → Prop
  | .zone e => ApplyOk Configs σ.zone e
  | .fed (.run s z _) => σ.fed.thread s z = .idle → (σ.zone.node s).server.logdb.AllApplied
  | .fed _ => True

instance (Configs : List ServerId → Prop) [DecidablePred Configs] (σ : MasterZone)
    (e : MasterEvent) : Decidable (FedOk Configs σ e) := by
  unfold FedOk
  split <;> infer_instance

/-! ## The records that are applied are observed -/

namespace LogDB

theorem lookup_congr {l l' : LogDB} (h : l'.table = l.table) (i : ℕ) : l'.lookup i = l.lookup i := by
  rw [lookup, h, lookup]

/-- The row that `apply_log_record` marks is the record it applies. -/
theorem applied_applyLogRecord {l : LogDB} {b : Backend} {lr : LogDBRecord}
    (hg : l.selectRecord (l.lastApplied + 1) l.lastApplied b = some lr) {dbOk : Bool} {now : ℕ}
    {rc : SqlError} {i : ℕ} {r' : LogRow}
    (hr' : (l.applyLogRecord dbOk now lr rc).1.lookup i = some r') (happ : r'.applied = true) :
    (∃ r, l.lookup i = some r ∧ r.applied = true ∧ r.term = r'.term ∧ r.sql = r'.sql) ∨
      (lr.index = i ∧ lr.term = r'.term ∧ lr.sql = r'.sql) := by
  obtain ⟨f, hlook, -⟩ := lookup_of_selectRecord hg
  rw [← selectRecord_index hg] at hlook
  unfold applyLogRecord at hr'
  split at hr'
  · cases dbOk with
    | false => exact Or.inl ⟨r', hr', happ, rfl, rfl⟩
    | true =>
      rw [lookup_markRows (l := l) rfl (by intro r; split <;> rfl) i,
        Option.map_eq_some_iff] at hr'
      obtain ⟨r, hr, rfl⟩ := hr'
      by_cases hm : r.index = lr.index ∧ r.timestamp = 0
      · rw [if_pos hm]
        have hri := (lookup_some hr).2
        rw [← hm.1, hri, hr, Option.map_some, Option.some.injEq, rowContent,
          Prod.mk.injEq, Prod.mk.injEq, Prod.mk.injEq] at hlook
        exact Or.inr ⟨hm.1.symm.trans hri, hlook.2.1.symm, hlook.2.2.1.symm⟩
      · rw [if_neg hm] at happ ⊢
        exact Or.inl ⟨r, hr, happ, rfl, rfl⟩
  · exact Or.inl ⟨r', hr', happ, rfl, rfl⟩

/-- The rows that a loop of `apply_log_records` marks are the records it returns. -/
theorem applied_reportedLoop (b : Backend) (dbOk : Bool) (now : ℕ) (exec : ℕ → SqlError) (n : ℕ) :
    ∀ (l : LogDB) {i : ℕ} {r' : LogRow},
      (reportedLoop b dbOk now exec n l).1.lookup i = some r' → r'.applied = true →
      (∃ r, l.lookup i = some r ∧ r.applied = true ∧ r.term = r'.term ∧ r.sql = r'.sql) ∨
        ∃ lr ∈ (reportedLoop b dbOk now exec n l).2.2,
          lr.index = i ∧ lr.term = r'.term ∧ lr.sql = r'.sql := by
  induction n with
  | zero =>
    intro l i r' hr' happ
    exact Or.inl ⟨r', hr', happ, rfl, rfl⟩
  | succ n ih =>
    intro l i r' hr' happ
    rcases reportedLoop_succ b dbOk now exec n l with hstop | ⟨lr, l₁, hg, rfl, -, heq | heq⟩
    · rw [hstop] at hr'
      exact Or.inl ⟨r', hr', happ, rfl, rfl⟩
    · rw [heq] at hr' ⊢
      exact (applied_applyLogRecord hg hr' happ).imp_right
        (fun hnew => ⟨lr, List.mem_singleton_self lr, hnew⟩)
    · rw [heq] at hr' ⊢
      rcases ih _ hr' happ with ⟨r, hr, hra, ht, hs⟩ | ⟨lr', hlr', hrest⟩
      · rcases applied_applyLogRecord hg hr hra with ⟨q, hq, hqa, hqt, hqs⟩ | ⟨hi, hlt, hls⟩
        · exact Or.inl ⟨q, hq, hqa, hqt.trans ht, hqs.trans hs⟩
        · exact Or.inr ⟨lr, List.mem_cons_self, hi, hlt.trans ht, hls.trans hs⟩
      · exact Or.inr ⟨lr', List.mem_cons_of_mem _ hlr', hrest⟩

end LogDB

/-- The rows that are marked as applied were applied before, or in this step. -/
def AppliedBefore (l l' : LogDB) (s : ServerId) (obs : List Obs) : Prop :=
  ∀ i r', l'.lookup i = some r' → r'.applied = true → 0 < i →
    (∃ r, l.lookup i = some r ∧ r.applied = true ∧ r.term = r'.term ∧ r.sql = r'.sql) ∨
      Obs.applied s i r'.term r'.sql ∈ obs

section Applied

variable {s : ServerId} {v : Server} {net : List Msg} {env : Env} {t : Thread} {o : Outcome}
  {l l' : LogDB} {obs : List Obs}

theorem appliedBefore_of_table (h : l'.table = l.table) : AppliedBefore l l' s obs := by
  intro i r' hr' happ _
  rw [LogDB.lookup_congr h] at hr'
  exact Or.inl ⟨r', hr', happ, rfl, rfl⟩

/-- A row that is written is not applied. -/
theorem appliedBefore_insertRow {row : LogRow} (happ : row.applied = false)
    (h : l'.table = l.table.filter (fun r => r.index ≠ row.index) ++ [row]) :
    AppliedBefore l l' s obs := by
  intro i r' hr' happ' _
  rw [LogDB.lookup_insertRow h] at hr'
  split at hr'
  · rw [← Option.some.inj hr', happ] at happ'
    exact absurd happ' (by simp)
  · exact Or.inl ⟨r', hr', happ', rfl, rfl⟩

theorem appliedBefore_apply {c : ℕ}
    (hf : ∀ i, i ≤ c → l.lastApplied < i → l.Finds env.backend i) : AppliedBefore l
    (l.applyLogRecords env.dbOk env.now env.exec c env.backend).1 s
    ((l.applyLogRecords env.dbOk env.now env.exec c env.backend).2.2.map
      (fun lr => .applied s lr.index lr.term lr.sql)) := by
  intro i r' hr' happ _
  rw [LogDB.applyLogRecords_eq hf] at hr' ⊢
  refine (LogDB.applied_reportedLoop _ _ _ _ _ l hr' happ).imp_right ?_
  rintro ⟨lr, hlr, rfl, hterm, hsql⟩
  rw [← hterm, ← hsql]
  exact List.mem_map_of_mem hlr

theorem table_setupIndex (l : LogDB) (b : Backend) : (l.setupIndex b).1.table = l.table := by
  unfold LogDB.setupIndex
  dsimp only
  cases l.maxIndex (fun _ => true) with
  | none => rfl
  | some i =>
    cases l.maxIndex LogRow.applied with
    | none => rfl
    | some a => dsimp only; split <;> rfl

/-- **A step of a thread marks only what it applies.** -/
theorem appliedBefore_step
    (hf : ∀ i, t.Applies i → v.logdb.lastApplied < i → v.logdb.Finds env.backend i)
    (h : ThreadStep s v net env t o) :
    AppliedBefore v.logdb o.server.logdb s o.obs := by
  cases h with
  | followerSetup t k => exact appliedBefore_of_table (table_setupIndex _ _)
  | leaderSetup t granted => exact appliedBefore_of_table (table_setupIndex _ _)
  | replDelete p c =>
    show AppliedBefore v.logdb (v.logdb.deleteLogRecords env.dbOk p.index env.backend).1 s []
    cases hdb : env.dbOk with
    | false => exact appliedBefore_of_table rfl
    | true =>
      have htable : (v.logdb.deleteLogRecords true p.index env.backend).1.table =
          v.logdb.table.filter (fun r => r.index < p.index) := by
        unfold LogDB.deleteLogRecords
        rw [if_pos rfl]
        dsimp only
        split <;> rfl
      intro i r' hr' happ _
      rw [LogDB.lookup_deleteRows htable] at hr'
      split at hr'
      · exact Or.inl ⟨r', hr', happ, rfl, rfl⟩
      · exact absurd hr' (by simp)
  | replInsert p c db hins =>
    rcases LogDB.insertLogRecordAt_cases hins with ⟨hb, -⟩ | ⟨-, -, -, -, -, hrow⟩
    · exact absurd hb (by simp)
    · rcases hrow with ⟨-, -, row, -, -, -, -, ⟨-, happ⟩, htable⟩ | ⟨-, -, -, htable⟩
      · exact appliedBefore_insertRow happ htable
      · exact appliedBefore_of_table htable
  | writeInsert sql fed T db i hins =>
    rcases LogDB.insertLogRecord_cases hins with ⟨hnone, -⟩ | ⟨-, -, -, -, -, hrow⟩
    · exact absurd hnone (by simp)
    · rcases hrow with ⟨-, -, row, -, -, -, -, ⟨-, happ⟩, htable⟩ | ⟨-, -, -, htable⟩
      · exact appliedBefore_insertRow happ htable
      · exact appliedBefore_of_table htable
  | replApply p c k => exact appliedBefore_apply hf
  | applyRecords i back => exact appliedBefore_apply hf
  | _ => exact appliedBefore_of_table rfl

end Applied

/-! ## What a slave takes over -/

theorem LogDB.fedRecord_kept {l l' : LogDB} {dbOk : Bool} {term ts i : ℕ} {sql : Sql}
    {fed o : Option ℕ} {x : ℕ × Sql} (hx : l.fedRecord i = some x)
    (h : l.insertLogRecord dbOk term sql ts fed = some (l', o)) : l'.fedRecord i = some x := by
  rcases LogDB.insertLogRecord_cases h with ⟨-, rfl, -⟩ | ⟨-, -, -, -, -, hrow⟩
  · exact hx
  · rcases hrow with ⟨hfree, -, row, hidx, -, -, -, -, htable⟩ | ⟨-, -, -, htable⟩
    · rw [fedRecord, lookup_insertRow htable, if_neg ?_]
      · exact hx
      · rintro rfl
        rw [fedRecord, hidx, hfree] at hx
        exact absurd hx (by simp)
    · rw [fedRecord, lookup_congr htable]
      exact hx

/-- What a slave has taken over meets `K`. -/
structure Slave.Only (K : ℕ × Sql → Prop) (v : Slave) : Prop where
  request : ∀ p ∈ v.handler.request, K (p.index, p.sql)
  accepted : ∀ i ∈ v.accepted, ∃ x, v.logdb.fedRecord i = some x ∧ K x
  executed : ∀ x ∈ v.executed, K x

section Only

variable {K K' : ℕ × Sql → Prop} {v v' : Slave}

theorem Slave.Only.mono (h : v.Only K) (hK : ∀ x, K x → K' x) : v.Only K' where
  request := fun p hp => hK _ (h.request p hp)
  accepted := by
    intro i hi
    obtain ⟨x, hx, hKx⟩ := h.accepted i hi
    exact ⟨x, hx, hK x hKx⟩
  executed := fun x hx => hK x (h.executed x hx)

theorem Slave.Only.finish (h : v.Only K) (p : FedParams) (rc : Option ℕ) :
    (v.finish p rc).1.Only K :=
  ⟨by simp [Slave.finish, Handler.request], h.accepted, h.executed⟩

theorem Slave.Only.receive (h : v.Only K) {p : FedParams} (hp : K (p.index, p.sql))
    {refused : Bool} {sent : List FedMsg} (hstep : v.receive p refused = some (v', sent)) :
    v'.Only K := by
  unfold Slave.receive at hstep
  split at hstep
  · rw [Option.some.injEq, Prod.mk.injEq] at hstep
    exact hstep.1 ▸ h
  · split at hstep
    · split at hstep
      · have hfin := h.finish p v.logdb.lastFederated
        rw [Option.some.inj hstep] at hfin
        exact hfin
      · rw [Option.some.injEq, Prod.mk.injEq] at hstep
        rw [← hstep.1]
        refine ⟨?_, h.accepted, h.executed⟩
        intro q hq
        rw [← Option.some.inj hq]
        exact hp
    · exact absurd hstep (by simp)

/-- A record of the handler comes into the log. -/
theorem Slave.Only.insert (h : v.Only K) {p : FedParams} (hp : K (p.index, p.sql))
    (hpos : 0 < p.index) {dbOk : Bool} {term ts : ℕ} {l : LogDB} {o : Option ℕ}
    (hins : v.logdb.insertLogRecord dbOk term p.sql ts (some p.index) = some (l, o)) :
    ∀ i ∈ v.accepted ++ o.toList, ∃ x, l.fedRecord i = some x ∧ K x := by
  intro i hi
  rcases List.mem_append.mp hi with hi | hi
  · obtain ⟨x, hx, hKx⟩ := h.accepted i hi
    exact ⟨x, LogDB.fedRecord_kept hx hins, hKx⟩
  · have hne : some p.index ≠ some 0 := by
      rw [Ne, Option.some.injEq]
      omega
    obtain ⟨-, -, -, -, hcases⟩ := LogDB.fedRecord_insertLogRecord hne hins
    obtain ⟨-, -, hnone⟩ | ⟨ho, -, ⟨hnone, -⟩ | ⟨f, hf, -, hrec⟩⟩ := hcases
    · exact absurd hnone (by simp)
    · exact absurd hnone (by simp)
    · rw [ho, Option.toList_some, List.mem_singleton] at hi
      rw [Option.some.injEq] at hf
      subst hf
      exact ⟨_, hi ▸ hrec, hp⟩

theorem Slave.Only.apply (h : v.Only K) (env : SlaveEnv) (c : ℕ) : (v.apply env c).1.Only K := by
  obtain ⟨hmarks, -, -, hrec⟩ := LogDB.reportedLoop_marks {} env.dbOk env.now env.exec
    (c - v.logdb.lastApplied) v.logdb
  refine ⟨h.request, ?_, ?_⟩
  · intro i hi
    obtain ⟨x, hx, hKx⟩ := h.accepted i hi
    exact ⟨x, (hmarks.fedRecord i).trans hx, hKx⟩
  · intro x hx
    rcases List.mem_append.mp hx with hx | hx
    · exact h.executed x hx
    · obtain ⟨lr, hlr, hlrx⟩ := List.mem_filterMap.mp hx
      obtain ⟨hmem, hacc⟩ := List.mem_filter.mp hlr
      obtain ⟨y, hy, hKy⟩ := h.accepted lr.index (by simpa using hacc)
      have hi := congrArg (fun o : Option (ℕ × ℕ × Sql × Option ℕ) =>
        o.bind (fun c => c.2.2.2.map (fun f => (f, c.2.2.1)))) (hrec lr hmem rfl)
      simp only [Option.bind_map, Option.bind_some] at hi
      have hxy : some x = some y := hlrx.symm.trans (hi.symm.trans hy)
      rw [Option.some.inj hxy]
      exact hKy

theorem Slave.Only.handlerStep (h : v.Only K) (hK : ∀ x, K x → 0 < x.1) {env : SlaveEnv}
    {sent : List FedMsg} (hstep : v.handlerStep env = some (v', sent)) : v'.Only K := by
  unfold Slave.handlerStep at hstep
  cases hk : v.handler with
  | free =>
    rw [hk] at hstep
    exact absurd hstep (by simp)
  | exec p =>
    have hp := h.request p (by rw [hk]; rfl)
    have hfin := h.finish p none
    rw [hk] at hstep
    simp only at hstep
    split at hstep
    · split at hstep
      · rw [Option.some.injEq, Prod.mk.injEq] at hstep
        rw [← hstep.1]
        refine ⟨?_, h.accepted, ?_⟩
        · intro q hq
          rw [← Option.some.inj hq]
          exact hp
        · intro x hx
          rcases List.mem_append.mp hx with hx | hx
          · exact h.executed x hx
          · rw [List.mem_singleton.mp hx]
            exact hp
      · rw [Option.some.inj hstep] at hfin
        exact hfin
    · split at hstep
      · split at hstep
        · exact absurd hstep (by simp)
        · rw [Option.some.inj hstep] at hfin
          exact hfin
        · rename_i l i hins
          rw [Option.some.injEq, Prod.mk.injEq] at hstep
          rw [← hstep.1]
          exact ⟨by simp [Handler.request], h.insert hp (hK _ hp) hins, h.executed⟩
      · rw [Option.some.inj hstep] at hfin
        exact hfin
  | insert p =>
    have hp := h.request p (by rw [hk]; rfl)
    rw [hk] at hstep
    simp only at hstep
    split at hstep
    · exact absurd hstep (by simp)
    · rename_i l o hins
      rw [Option.some.injEq, Prod.mk.injEq] at hstep
      rw [← hstep.1]
      exact ⟨by simp [Handler.request], h.insert hp (hK _ hp) hins, h.executed⟩
  | setApplied p =>
    rw [hk, Option.some.injEq] at hstep
    have hv := congrArg Prod.fst hstep
    rw [← show _ = v' from hv]
    exact ⟨by simp [Slave.finish, Handler.request], h.accepted, h.executed⟩
  | wait p i =>
    rw [hk] at hstep
    simp only at hstep
    split at hstep
    · have hfin := (h.apply env i).finish p (if (v.apply env i).2 then some 0 else none)
      rw [Option.some.inj hstep] at hfin
      exact hfin
    · have hfin := h.finish p none
      rw [Option.some.inj hstep] at hfin
      exact hfin

theorem Slave.Only.localWrite (h : v.Only K) {env : SlaveEnv} {sql : Sql}
    (hstep : v.localWrite env sql = some v') : v'.Only K := by
  unfold Slave.localWrite at hstep
  split at hstep
  · exact absurd hstep (by simp)
  · rename_i l o hins
    rw [← Option.some.inj hstep]
    refine ⟨h.request, ?_, h.executed⟩
    intro i hi
    obtain ⟨x, hx, hKx⟩ := h.accepted i hi
    have hkept := LogDB.fedRecord_kept hx hins
    refine ⟨x, ?_, hKx⟩
    cases hs : v.solo with
    | true => exact hkept
    | false => exact hkept

end Only

/-! ## The invariant -/

/-- The rows of a server that are marked as applied were observed. -/
def Noted (σ : Cluster) : Prop :=
  ∀ s i r, (σ.node s).server.logdb.lookup i = some r → r.applied = true → 0 < i →
    Obs.applied s i r.term r.sql ∈ σ.obs

/-- The record `x` was applied by a server of the master zone, and the server keeps it. -/
def Kept (Configs : List ServerId → Prop) (w : World) (obs : List Obs) (x : ℕ × Sql) : Prop :=
  ∃ s t, 0 < x.1 ∧ Safe Configs w s x.1 ∧ (w.ledger.log s)[x.1 - 1]? = some (t, x.2) ∧
    Obs.applied s x.1 t x.2 ∈ obs

/-- What is read, sent and executed is kept by the master zone. -/
structure FedInv (K : ℕ × Sql → Prop) (φ : Federation) : Prop where
  thread : ∀ s z lr, φ.thread s z = .record lr → K (lr.index, lr.sql)
  net : ∀ p, FedMsg.replicate p ∈ φ.net → K (p.index, p.sql)
  slave : ∀ z, (φ.slave z).Only K

/-- The invariant of the federation. -/
structure MasterInv (Configs : List ServerId → Prop) (text : ServerId → Sql) (w : World)
    (σ : MasterZone) : Prop where
  commits : CommitInv Configs text w σ.zone
  applies : (applies Configs).Holds w σ.zone
  noted : Noted σ.zone
  fed : FedInv (Kept Configs w σ.zone.obs) σ.fed

section Step

variable {Configs : List ServerId → Prop} {text : ServerId → Sql} {w w' : World} {σ σ' : Cluster}
  {e : Event}

theorem Kept.mono (hk : Keeps Configs w w') {obs obs' : List Obs} (hobs : obs ⊆ obs')
    {x : ℕ × Sql} (h : Kept Configs w obs x) : Kept Configs w' obs' x := by
  obtain ⟨s, t, hpos, hsafe, hlog, hob⟩ := h
  refine ⟨s, t, hpos, hsafe.mono hk, ?_, hobs hob⟩
  have htake := congrArg (fun l => l[x.1 - 1]?) (hk.safe s x.1 hsafe).2
  simp only [List.getElem?_take, if_pos (show x.1 - 1 < x.1 by omega)] at htake
  exact htake.trans hlog

theorem keeps_move (hconf : ZoneConfigs Configs) (h : CommitInv Configs text w σ)
    (ha : (applies Configs).Holds w σ) (hok : ApplyOk Configs σ e)
    (hmove : Cluster.Move w σ e σ' w') : Keeps Configs w w' := by
  cases hmove with
  | timeout s servers _ _ => exact Keeps.refl Configs w
  | timer s env o hstep =>
    obtain ⟨-, -, -, hk, -⟩ := applies_running hconf h ha hok rfl (ha.timer s) hstep
    exact hk
  | thread s i env t o hi hstep =>
    have hrun := Cluster.running_thread hi env
    obtain ⟨-, -, -, hk, -⟩ :=
      applies_running hconf h ha hok hrun (ha.thread s t (List.mem_of_getElem? hi)) hstep
    exact hk
  | start e s t pending _ => exact Keeps.refl Configs w
  | restart s servers now text' => exact Keeps.refl Configs w

/-- A step of one server, as far as the marks are concerned. -/
theorem Noted.put (h : Noted σ) {s : ServerId} {n : Node} {sent : List Msg} {obs : List Obs}
    (hn : AppliedBefore (σ.node s).server.logdb n.server.logdb s obs) :
    Noted (σ.put s n sent obs) := by
  intro s' i r hr happ hpos
  by_cases hs : s' = s
  · subst hs
    simp only [Cluster.put, Function.update_self] at hr
    rcases hn i r hr happ hpos with ⟨q, hq, hqa, hqt, hqs⟩ | hnew
    · rw [← hqt, ← hqs]
      exact List.mem_append_right _ (h s' i q hq hqa hpos)
    · exact List.mem_append_left _ hnew
  · simp only [Cluster.put, Function.update_of_ne hs] at hr
    exact List.mem_append_right _ (h s' i r hr happ hpos)

/-- The constructor writes at most the record `0`. -/
theorem lookup_construct {t : List LogRow} {retention purge now : ℕ} {limit : Bool} {text : Sql}
    {i : ℕ} (hi : 0 < i) :
    (LogDB.construct t retention purge limit now text).lookup i =
      t.find? (fun r => r.index = i) := by
  unfold LogDB.construct
  dsimp only
  rw [LogDB.lookup_congr (table_setupIndex _ _)]
  split
  · rfl
  · split
    · rename_i l' b hins
      rcases LogDB.insertLogRecordAt_cases hins with ⟨-, rfl⟩ | ⟨-, -, -, -, -, hrow⟩
      · rfl
      · rcases hrow with ⟨-, -, row, hidx, -, -, -, -, htable⟩ | ⟨-, -, -, htable⟩
        · rw [LogDB.lookup_insertRow htable, if_neg (by omega)]
          rfl
        · rw [LogDB.lookup_congr htable]
          rfl
    · rfl

theorem noted_move (hc : CommitInv Configs text w σ) (ha : (applies Configs).Holds w σ)
    (h : Noted σ) (hmove : Cluster.Move w σ e σ' w') : Noted σ' := by
  cases hmove with
  | timeout s servers _ _ => exact h.put (appliedBefore_of_table rfl)
  | timer s env o hstep =>
    exact h.put (appliedBefore_step (fun i hi _ => (hc.logs.server s).log.finds env.backend
      (safe_of_applies (ha.timer s) i hi).1) hstep)
  | thread s k env t o hk hstep =>
    exact h.put (appliedBefore_step (fun i hi _ => (hc.logs.server s).log.finds env.backend
      (safe_of_applies (ha.thread s t (List.mem_of_getElem? hk)) i hi).1) hstep)
  | start e s t pending _ => exact h.put (appliedBefore_of_table rfl)
  | restart s servers now text' =>
    refine h.put ?_
    intro i r hr happ hpos
    have hr' : (LogDB.construct (σ.node s).server.logdb.table _ _ _ _ _).lookup i = some r := hr
    rw [lookup_construct hpos] at hr'
    exact Or.inl ⟨r, hr', happ, rfl, rfl⟩

theorem noted_init (zone : List ServerId) (text : ServerId → Sql) :
    Noted (Cluster.init zone text) := by
  intro s i r hr _ hpos
  have hr' : (LogDB.construct [] _ _ _ _ _).lookup i = some r := hr
  rw [lookup_construct hpos] at hr'
  exact absurd hr' (by simp)

theorem obs_subset (hmove : Cluster.Move w σ e σ' w') : σ.obs ⊆ σ'.obs := by
  cases hmove <;> exact List.subset_append_right _ _

/-- What a thread reads while all federated records are applied is kept. -/
theorem kept_getNextRecord (h : CommitInv Configs text w σ) (ha : (applies Configs).Holds w σ)
    (hn : Noted σ) {s : ServerId} (hall : (σ.node s).server.logdb.AllApplied)
    {zs zs' : ZoneServers} {lr : LogDBRecord}
    (hread : zs.getNextRecord (σ.node s).server.logdb = (zs', .record lr)) :
    Kept Configs w σ.obs (lr.index, lr.sql) := by
  obtain ⟨hsql, a, hprev⟩ := genuine_getNextRecord hread
  have hpos : 0 < lr.index := by
    have := hprev.lt
    omega
  obtain ⟨r, hr, hrs⟩ := Option.map_eq_some_iff.mp hsql
  have happ : r.applied = true := by
    have hf := hall lr.index hprev.right
    rw [hr] at hf
    exact Option.some.inj hf
  obtain ⟨hmem, hidx⟩ := LogDB.lookup_some hr
  have hsafe : Safe Configs w s lr.index := hidx ▸ (ha.server s).applied.rows r hmem happ
  have hlog := (h.logs.server s).log.succ (lr.index - 1)
  rw [Nat.sub_add_cancel hpos, LogDB.entry, hr, Option.map_some, hrs] at hlog
  refine ⟨s, r.term, hpos, hsafe, hlog.symm, ?_⟩
  rw [← hrs]
  exact hn s lr.index r hr happ hpos

end Step

section Run

variable {Configs : List ServerId → Prop} {text : ServerId → Sql} {w : World} {σ σ' : MasterZone}
  {K : ℕ × Sql → Prop}

/-- The thread of a zone sends what it has read. -/
theorem only_threadStep {m : LogDB} {fm fm' : FedReplicaManager} {net sent : List FedMsg}
    {z : ZoneId} {reply : Option (Bool × Option ℕ)} {t t' : FedThread}
    (ht : ∀ lr, t = .record lr → K (lr.index, lr.sql))
    (hread : t = .idle → ∀ (zs zs' : ZoneServers) lr,
      zs.getNextRecord m = (zs', .record lr) → K (lr.index, lr.sql))
    (h : Federation.threadStep fm m net z reply t = some (fm', t', sent)) :
    (∀ lr, t' = .record lr → K (lr.index, lr.sql)) ∧
      ∀ p, FedMsg.replicate p ∈ sent → K (p.index, p.sql) := by
  cases t with
  | idle =>
    unfold Federation.threadStep FedReplicaManager.getNextRecord at h
    cases hz : fm.lookup z with
    | none =>
      simp only [hz, Option.some.injEq, Prod.mk.injEq] at h
      obtain ⟨-, rfl, rfl⟩ := h
      exact ⟨by simp, by simp⟩
    | some zs =>
      simp only [hz] at h
      split at h
      · rename_i m' lr heq
        rw [Prod.mk.injEq] at heq
        simp only [Option.some.injEq, Prod.mk.injEq] at h
        obtain ⟨-, rfl, rfl⟩ := h
        refine ⟨?_, by simp⟩
        intro lr' hlr'
        rw [FedThread.record.injEq] at hlr'
        subst hlr'
        exact hread rfl zs (zs.getNextRecord m).1 lr (by rw [← heq.2])
      · simp only [Option.some.injEq, Prod.mk.injEq] at h
        obtain ⟨-, rfl, rfl⟩ := h
        exact ⟨by simp, by simp⟩
  | record lr =>
    simp only [Federation.threadStep, Option.some.injEq, Prod.mk.injEq] at h
    obtain ⟨-, rfl, rfl⟩ := h
    refine ⟨by simp, ?_⟩
    intro p hp
    rw [List.mem_singleton, FedMsg.replicate.injEq] at hp
    subst hp
    exact ht lr rfl
  | wait q =>
    cases reply with
    | none =>
      simp only [Federation.threadStep, Option.some.injEq, Prod.mk.injEq] at h
      obtain ⟨-, rfl, rfl⟩ := h
      exact ⟨by simp, by simp⟩
    | some r =>
      obtain ⟨success, last⟩ := r
      simp only [Federation.threadStep] at h
      split at h
      · simp only [Option.some.injEq, Prod.mk.injEq] at h
        obtain ⟨-, rfl, rfl⟩ := h
        refine ⟨?_, by simp⟩
        cases success <;> simp
      · exact absurd h (by simp)
  | success =>
    simp only [Federation.threadStep, Option.some.injEq, Prod.mk.injEq] at h
    obtain ⟨-, rfl, rfl⟩ := h
    exact ⟨by simp, by simp⟩
  | failure last =>
    simp only [Federation.threadStep, Option.some.injEq, Prod.mk.injEq] at h
    obtain ⟨-, rfl, rfl⟩ := h
    exact ⟨by simp, by simp⟩

/-- A step of a slave. -/
theorem FedInv.putSlave {φ : Federation} (h : FedInv K φ) {z : ZoneId} {v : Slave}
    {sent : List FedMsg} (hv : v.Only K) (hsent : ∀ p, FedMsg.replicate p ∉ sent) :
    FedInv K (φ.putSlave z v sent) where
  thread := h.thread
  net := by
    intro p hp
    rcases List.mem_append.mp hp with hp | hp
    · exact absurd hp (hsent p)
    · exact h.net p hp
  slave := by
    intro z'
    by_cases hz : z' = z
    · subst hz
      simpa [Federation.putSlave] using hv
    · simpa [Federation.putSlave, hz] using h.slave z'

/-- **A step of the replication.** -/
theorem FedInv.step {db : ServerId → LogDB} {φ φ' : Federation} {e : FedEvent} (h : FedInv K φ)
    (hK : ∀ x, K x → 0 < x.1)
    (hread : ∀ s z reply, e = .run s z reply → φ.thread s z = .idle →
      ∀ (zs zs' : ZoneServers) lr, zs.getNextRecord (db s) = (zs', .record lr) →
        K (lr.index, lr.sql))
    (hstep : φ.step db e = some φ') : FedInv K φ' := by
  cases e with
  | run s z reply =>
    simp only [Federation.step] at hstep
    split at hstep
    · exact absurd hstep (by simp)
    · rename_i fm t sent ht
      rw [← Option.some.inj hstep]
      obtain ⟨hthread, hsent⟩ := only_threadStep (h.thread s z) (hread s z reply rfl) ht
      refine ⟨?_, ?_, h.slave⟩
      · intro s' z' lr hlr
        by_cases hs : s' = s
        · subst hs
          simp only [Function.update_self] at hlr
          by_cases hz : z' = z
          · subst hz
            rw [Function.update_self] at hlr
            exact hthread lr hlr
          · rw [Function.update_of_ne hz] at hlr
            exact h.thread s' z' lr hlr
        · simp only [Function.update_of_ne hs] at hlr
          exact h.thread s' z' lr hlr
      · intro p hp
        rcases List.mem_append.mp hp with hp | hp
        · exact hsent p hp
        · exact h.net p hp
  | addZone s z =>
    simp only [Federation.step, Option.some.injEq] at hstep
    rw [← hstep]
    exact ⟨h.thread, h.net, h.slave⟩
  | deleteZone s z =>
    simp only [Federation.step, Option.some.injEq] at hstep
    rw [← hstep]
    exact ⟨h.thread, h.net, h.slave⟩
  | updateZones s zones =>
    simp only [Federation.step, Option.some.injEq] at hstep
    rw [← hstep]
    exact ⟨h.thread, h.net, h.slave⟩
  | receive p refused =>
    simp only [Federation.step] at hstep
    split at hstep
    · rename_i hp
      rw [Option.map_eq_some_iff] at hstep
      obtain ⟨⟨v, sent⟩, hv, rfl⟩ := hstep
      exact h.putSlave ((h.slave p.dst).receive (h.net p hp) hv) (fun q => receive_sent hv)
    · exact absurd hstep (by simp)
  | handler z env =>
    simp only [Federation.step, Option.map_eq_some_iff] at hstep
    obtain ⟨⟨v, sent⟩, hv, rfl⟩ := hstep
    exact h.putSlave ((h.slave z).handlerStep hK hv) (fun q => handlerStep_sent hv)
  | localWrite z env sql =>
    simp only [Federation.step, Option.map_eq_some_iff] at hstep
    obtain ⟨v, hv, rfl⟩ := hstep
    exact h.putSlave ((h.slave z).localWrite hv) (by simp)
  | apply z env commit =>
    simp only [Federation.step] at hstep
    split at hstep
    · exact absurd hstep (by simp)
    · rw [← Option.some.inj hstep]
      exact h.putSlave ((h.slave z).apply env commit) (by simp)

/-- **Every step keeps the invariant of the federation.** -/
theorem MasterInv.step (hconf : ZoneConfigs Configs) (h : MasterInv Configs text w σ)
    {e : MasterEvent} (hok : FedOk Configs σ e) (hstep : σ.step e = some σ') :
    ∃ w', MasterInv Configs text w' σ' := by
  cases e with
  | zone e =>
    simp only [MasterZone.step, Option.map_eq_some_iff] at hstep
    obtain ⟨c, hc, rfl⟩ := hstep
    obtain ⟨w', hmove⟩ := Cluster.step_cases w hc
    have hkeeps := keeps_move hconf h.commits h.applies hok hmove
    have hmono : ∀ x, Kept Configs w σ.zone.obs x → Kept Configs w' c.obs x :=
      fun x hx => hx.mono hkeeps (obs_subset hmove)
    refine ⟨w', h.commits.move hconf hok.toCommitOk hmove,
      applies_move hconf h.commits h.applies hok hmove, noted_move h.commits h.applies h.noted hmove, ?_⟩
    exact ⟨fun s z lr hlr => hmono _ (h.fed.thread s z lr hlr),
      fun p hp => hmono _ (h.fed.net p hp), fun z => (h.fed.slave z).mono hmono⟩
  | fed e =>
    simp only [MasterZone.step, Option.map_eq_some_iff] at hstep
    obtain ⟨φ, hφ, rfl⟩ := hstep
    refine ⟨w, h.commits, h.applies, h.noted, ?_⟩
    refine h.fed.step ?_ ?_ hφ
    · rintro x ⟨s, t, hpos, -⟩
      exact hpos
    · rintro s z reply rfl hidle zs zs' lr hread
      exact kept_getNextRecord h.commits h.applies h.noted (hok hidle) hread

end Run

/-! ## Safety of the federation -/

/-- The master zone has applied the record and does not lose it: a server that has applied it
still has it, and no server has applied another record at its index. -/
def MasterZone.Lasting (σ : MasterZone) (x : ℕ × Sql) : Prop :=
  ∃ s t, Obs.applied s x.1 t x.2 ∈ σ.zone.obs ∧
    (σ.zone.node s).server.logdb.entry x.1 = some (t, x.2) ∧
    ∀ s' t' y, Obs.applied s' x.1 t' y ∈ σ.zone.obs → t' = t ∧ y = x.2

/-- **Safety of the federation.**  In every run whose steps meet `FedOk`, whatever the slave zones
start with: every federated record that was sent, and every one that a slave has executed, is a
record that the master zone has applied and does not lose. -/
theorem fed_records_lasting {Configs : List ServerId → Prop} (hconf : ZoneConfigs Configs)
    (zone : List ServerId) (text : ServerId → Sql) (frm : ServerId → FedReplicaManager)
    (log : ZoneId → LogDB) (solo : ZoneId → Bool) {σ : MasterZone}
    (hrun : Reach MasterZone.step (FedOk Configs)
      ⟨Cluster.init zone text, Federation.init frm log solo⟩ σ) :
    (∀ p, FedMsg.replicate p ∈ σ.fed.net → σ.Lasting (p.index, p.sql)) ∧
      ∀ z, ∀ x ∈ (σ.fed.slave z).executed, σ.Lasting x := by
  have hinit : MasterInv Configs text World.init
      ⟨Cluster.init zone text, Federation.init frm log solo⟩ := by
    refine ⟨⟨election_init Configs zone text, logs_init zone text,
      commits_init Configs zone text⟩, applies_init Configs zone text, noted_init zone text, ?_⟩
    refine ⟨by simp [Federation.init], by simp [Federation.init], ?_⟩
    intro z
    exact ⟨by simp [Federation.init, Handler.request], by simp [Federation.init],
      by simp [Federation.init]⟩
  obtain ⟨w, h⟩ := hrun.inv (P := fun σ => ∃ w, MasterInv Configs text w σ) ⟨_, hinit⟩
    (fun σ₁ e σ₂ hex hok hstep => hex.elim fun w₁ h₁ => h₁.step hconf hok hstep)
  have hlasting : ∀ x, Kept Configs w σ.zone.obs x → σ.Lasting x := by
    rintro x ⟨s, t, hpos, hsafe, hlog, hob⟩
    refine ⟨s, t, hob, ?_, ?_⟩
    · have hsucc := (h.commits.logs.server s).log.succ (x.1 - 1)
      rw [Nat.sub_add_cancel hpos] at hsucc
      rw [hsucc, hlog]
    · intro s' t' y hob'
      obtain ⟨-, U, P, hP, hx⟩ := h.applies.obs _ hob
      obtain ⟨-, U', P', hP', hx'⟩ := h.applies.obs _ hob'
      exact Prod.mk.inj (entry_eq_of_isPrefix
        (h.commits.commits.world.committed_total hconf.meet hP' hP) hx' hx)
  exact ⟨fun p hp => hlasting _ (h.fed.net p hp),
    fun z x hx => hlasting x ((h.fed.slave z).executed x hx)⟩

/-- Server `0` leads term 1, and its federated record `X` is replicated, committed and applied. -/
def firstFederatedRun : List (ℕ × MasterEvent) :=
  (electionRun.map (fun e => (e.1, .zone e.2))).append
    [(1, .zone (.write 0 ['X'] (some 0))), (4, .zone (.thread 0 0 .calm)), (1, .zone (.wake 0 1)),
      (4, .zone (.thread 0 1 .calm)),
      (1, .zone (.recvReplicate 1 ⟨0, 1, 0, 1, 1, 1, 0, 0, some 1, ['X']⟩)),
      (8, .zone (.thread 1 1 .calm)), (1, .zone (.thread 0 1 (.answer true 1))),
      (2, .zone (.thread 0 1 .calm)), (3, .zone (.thread 0 0 .calm))]

/-- The thread for the slave zone `1` reads the record `Y` and sends it; the slave, which has `X`
as its last federated record, executes it. -/
def sendSecond : List (ℕ × MasterEvent) :=
  [(1, .fed (.updateZones 0 [1])), (2, .fed (.run 0 1 none)),
    (1, .fed (.receive ⟨1, 2, some 1, ['Y']⟩ false)), (3, .fed (.handler 1 .calm))]

/-- A second federated record is applied in the master zone, and then sent. -/
def federatedRun : List (ℕ × MasterEvent) :=
  (firstFederatedRun.append
    [(1, .zone (.write 0 ['Y'] (some 0))), (4, .zone (.thread 0 2 .calm)), (1, .zone (.wake 0 1)),
      (4, .zone (.thread 0 3 .calm)),
      (1, .zone (.recvReplicate 1 ⟨0, 1, 1, 1, 2, 1, 1, 1, some 2, ['Y']⟩)),
      (8, .zone (.thread 1 2 .calm)), (1, .zone (.thread 0 3 (.answer true 1))),
      (2, .zone (.thread 0 3 .calm)), (3, .zone (.thread 0 2 .calm))]).append sendSecond

theorem fed_records_lasting_federatedRun :
    ∃ σ, Reach MasterZone.step (FedOk (· = [0, 1, 2]))
        ⟨Cluster.init [0, 1, 2] (fun _ => ['0']),
          Federation.init (fun _ => ∅) (fun _ => fedLogOf [['X']]) (fun _ => true)⟩ σ ∧
      (σ.fed.slave 1).executed = [(2, ['Y'])] ∧ σ.Lasting (2, ['Y']) := by
  have hrun : ((runChecked MasterZone.step (FedOk (· = [0, 1, 2]))
      ⟨Cluster.init [0, 1, 2] (fun _ => ['0']),
        Federation.init (fun _ => ∅) (fun _ => fedLogOf [['X']]) (fun _ => true)⟩
      (repeated federatedRun)).map (fun σ => (σ.fed.slave 1).executed)) = some [(2, ['Y'])] := by
    decide
  obtain ⟨σ, hσ, hex⟩ := Option.map_eq_some_iff.mp hrun
  have hreach := reach_of_runChecked _ hσ
  have hsafe := (fed_records_lasting (zoneConfigs_fixed (by decide)) [0, 1, 2] (fun _ => ['0']) _ _ _
    hreach).2
  refine ⟨σ, hreach, hex, hsafe 1 _ ?_⟩
  rw [hex]
  exact List.mem_singleton_self _

/-- The event keeps to a fixed set of servers of the master zone. -/
def MasterEvent.inZone (zone : List ServerId) : MasterEvent → Bool
  | .zone e => e.inZone zone
  | .fed _ => true

/-- The run in which a slave executes a record that the master zone discards.  Server `0` inserts
the federated record `Y`, and the thread for the slave sends it before any other server has it.
Server `1` is then elected in term 2 with the vote of server `2`, and server `0` replaces `Y` by the
record `B` of the new leader, which is committed and applied. -/
def discardedRun : List (ℕ × MasterEvent) :=
  ((firstFederatedRun.append
    [(1, .zone (.write 0 ['Y'] (some 0))), (3, .zone (.thread 0 2 .calm))]).append sendSecond).append
    [(1, .zone (.timeout 1 [0, 1, 2])), (6, .zone (.timer 1 .calm)),
      (1, .zone (.recvVote 2 ⟨1, 2, 2, 1, 1⟩)), (8, .zone (.thread 2 0 .calm)),
      (1, .zone (.timer 1 (.answer true 0))), (2, .zone (.timer 1 .calm)),
      (1, .zone (.write 1 ['B'] none)), (4, .zone (.thread 1 3 .calm)), (1, .zone (.wake 1 0)),
      (4, .zone (.thread 1 4 .calm)),
      (1, .zone (.recvReplicate 0 ⟨1, 0, 0, 2, 1, 1, 0, 0, some 1, ['X']⟩)),
      (8, .zone (.thread 0 3 .calm)), (1, .zone (.thread 1 4 (.answer true 1))),
      (2, .zone (.thread 1 4 .calm)), (1, .zone (.wake 1 0)), (4, .zone (.thread 1 5 .calm)),
      (1, .zone (.recvReplicate 0 ⟨1, 0, 0, 2, 2, 2, 1, 1, none, ['B']⟩)),
      (9, .zone (.thread 0 4 .calm)), (1, .zone (.thread 1 5 (.answer true 2))),
      (2, .zone (.thread 1 5 .calm)), (3, .zone (.thread 1 3 .calm))]

/-- Without the condition, a slave can execute a record that the master zone discards. -/
theorem slave_executes_discarded_record :
    ¬ ∀ σ, Reach MasterZone.step (fun _ e => e.inZone [0, 1, 2] = true)
        ⟨Cluster.init [0, 1, 2] (fun _ => ['0']),
          Federation.init (fun _ => ∅) (fun _ => fedLogOf [['X']]) (fun _ => true)⟩ σ →
      ∀ z, ∀ x ∈ (σ.fed.slave z).executed, σ.Lasting x := by
  intro h
  have hrun : ((runEvents MasterZone.step
      ⟨Cluster.init [0, 1, 2] (fun _ => ['0']),
        Federation.init (fun _ => ∅) (fun _ => fedLogOf [['X']]) (fun _ => true)⟩
      (repeated discardedRun)).map (fun σ => ((σ.fed.slave 1).executed,
        decide (Obs.applied 1 2 2 ['B'] ∈ σ.zone.obs)))) = some ([(2, ['Y'])], true) := by
    decide
  obtain ⟨σ, hσ, heq⟩ := Option.map_eq_some_iff.mp hrun
  obtain ⟨hex, hB⟩ := Prod.mk.inj heq
  have hzone : ∀ e ∈ repeated discardedRun, e.inZone [0, 1, 2] = true := by decide
  have hY : (2, ['Y']) ∈ (σ.fed.slave 1).executed := by
    rw [hex]
    exact List.mem_singleton_self _
  obtain ⟨s, t, -, -, honly⟩ := h σ (reach_of_runEvents _ hzone hσ) 1 _ hY
  exact absurd (honly 1 2 ['B'] (of_decide_eq_true hB)).2 (by decide)
