/-
# Reports and the actions they are for

A report should end the action whose operation it is about (`Right`).  The plan manager finds the action
by the number of the plan, which is the same for all the plans of a cluster, and by the number of the
action, so a late report may end an action of a later plan (`not_right_late`).

`Fresh` says that a report that finds a waiting action is not late: the history record that it comes from
was written for the operation that has ended, and the plan was not replaced since.  In a run of fresh
reports, and of plans whose actions have different numbers, every report ends its own action
(`right_of_reach`).  The invariant `Inv` says for which action each operation was started.
-/
import OpenNebula.PlanManager

open Transition

namespace PlanManager

/-! ## The actions of a plan -/

/-- The numbers and the virtual machines of the actions. -/
def Plan.keys (p : Plan) : List (ℤ × ℤ) := p.actions.map fun a => (a.id, a.vmId)

/-- The actions under the number of a plan. -/
def State.keys (s : State) (cid : ℤ) : Option (List (ℤ × ℤ)) := (s.plans cid).map Plan.keys

theorem map_modify {α β : Type*} (g : α → β) (f : α → α) (hf : ∀ a, g (f a) = g a) (l : List α)
    (i : ℕ) : (l.modify i f).map g = l.map g := by
  refine List.ext_getElem? fun j => ?_
  rw [List.getElem?_map, List.getElem?_map, List.getElem?_modify]
  split
  · cases l[j]? with
    | none => rfl
    | some a => exact congrArg some (hf a)
  · cases l[j]? <;> rfl

theorem keys_modify (p : Plan) (i : ℕ) (f : PlanAction → PlanAction)
    (hf : ∀ a, (f a).id = a.id ∧ (f a).vmId = a.vmId) :
    Plan.keys { p with actions := p.actions.modify i f } = p.keys :=
  map_modify _ f (fun a => Prod.ext (hf a).1 (hf a).2) _ i

theorem keys_timeoutActions (p : Plan) (timeout now : ℤ) :
    (p.timeoutActions timeout now).keys = p.keys := by
  unfold Plan.keys Plan.timeoutActions
  rw [List.map_map]
  refine List.map_congr_left fun a _ => ?_
  rw [Function.comp_apply]
  split <;> rfl

theorem actions_checkCompleted (p : Plan) : p.checkCompleted.actions = p.actions := by
  unfold Plan.checkCompleted
  split <;> rfl

theorem keys_checkCompleted (p : Plan) : p.checkCompleted.keys = p.keys := by
  unfold Plan.keys
  rw [actions_checkCompleted]

theorem keys_actionFinished (p : Plan) (id : ℤ) (st : PlanState) :
    (p.actionFinished id st).1.keys = p.keys := by
  unfold Plan.actionFinished
  split
  · exact keys_modify p _ _ fun a => ⟨rfl, rfl⟩
  · rfl

section Frame

variable {s : State} {cid cid' : ℤ} {p : Plan}

/-- A change of a plan that keeps its actions. -/
theorem keys_setPlan (hp : s.plans cid = some p) {p' : Plan} (hkeys : p'.keys = p.keys) (cid' : ℤ) :
    (s.setPlan cid (some p')).keys cid' = s.keys cid' := by
  show (Function.update s.plans cid (some p') cid').map Plan.keys = (s.plans cid').map Plan.keys
  by_cases h : cid' = cid
  · subst h
    rw [Function.update_self, hp, Option.map_some, Option.map_some, hkeys]
  · rw [Function.update_of_ne h]

end Frame

/-! ## The invariant -/

/-- The two numbers are the ones of the action that an operation was started for. -/
def State.WrittenBy (s : State) (planId actionId : ℤ) (op : Option ℕ) : Prop :=
  ∀ n, op = some n → ∃ o, s.started[n]? = some o ∧ o.planId = planId ∧ o.actionId = actionId

/-- Which action each operation was started for. -/
structure Inv (s : State) : Prop where
  ids : ∀ cid ks, s.keys cid = some ks → (ks.map Prod.fst).Nodup
  ops : ∀ o ∈ s.started, o.gen ≤ s.gen o.planId ∧ (o.gen = s.gen o.planId →
    ∃ ks, s.keys o.planId = some ks ∧ (o.actionId, o.vm) ∈ ks)
  records : ∀ vm r, (s.vms vm).current = some r ∨ (s.vms vm).previous = some r →
    s.WrittenBy r.planId r.actionId r.writtenFor
  reports : ∀ r ∈ s.inbox, s.WrittenBy r.planId r.actionId r.writtenFor
  phases : ∀ cid hosts cluster i n, s.phase cid = .starting hosts cluster i n →
    ∃ o ks, s.started[n]? = some o ∧ o.planId = cid ∧ s.keys cid = some ks ∧
      ks[i]? = some (o.actionId, o.vm)

theorem inv_init : Inv init where
  ids cid ks h := by
    unfold State.keys init at h
    dsimp only at h
    split_ifs at h
    · rw [← Option.some.inj h]
      exact List.nodup_nil
    · exact absurd h (by simp)
  ops o ho := absurd ho List.not_mem_nil
  records vm r h := by
    rcases h with h | h <;> exact absurd h (by simp [init])
  reports r hr := absurd hr List.not_mem_nil
  phases cid hosts cluster i n h := absurd h (by simp [init])

section Steps

variable {s t : State} {cid : ℤ} {p p' : Plan}

/-- **A step that keeps the actions of all plans.** -/
theorem Inv.frame (h : Inv s) (hkeys : ∀ cid, t.keys cid = s.keys cid) (hgen : t.gen = s.gen)
    (hstarted : t.started = s.started)
    (hrecords : ∀ vm r, (t.vms vm).current = some r ∨ (t.vms vm).previous = some r →
      s.WrittenBy r.planId r.actionId r.writtenFor)
    (hreports : ∀ r ∈ t.inbox, s.WrittenBy r.planId r.actionId r.writtenFor)
    (hphases : ∀ cid hosts cluster i n, t.phase cid = .starting hosts cluster i n →
      s.phase cid = .starting hosts cluster i n) : Inv t := by
  have hwritten : ∀ planId actionId op, s.WrittenBy planId actionId op →
      t.WrittenBy planId actionId op := by
    intro planId actionId op hw n hn
    rw [hstarted]
    exact hw n hn
  refine ⟨?_, ?_, ?_, ?_, ?_⟩
  · intro cid ks hks
    rw [hkeys] at hks
    exact h.ids cid ks hks
  · intro o ho
    rw [hstarted] at ho
    rw [hgen, hkeys]
    exact h.ops o ho
  · exact fun vm r hr => hwritten _ _ _ (hrecords vm r hr)
  · exact fun r hr => hwritten _ _ _ (hreports r hr)
  · intro cid hosts cluster i n hph
    rw [hstarted, hkeys]
    exact h.phases cid hosts cluster i n (hphases cid hosts cluster i n hph)

/-- **A plan is replaced.**  The operations that were started before are of an earlier plan. -/
theorem Inv.replacePlan (h : Inv s) (hphase : ∀ hosts cluster i n,
    s.phase cid ≠ .starting hosts cluster i n) {q : Option Plan}
    (hids : ∀ p, q = some p → (p.actions.map PlanAction.id).Nodup) : Inv (s.replacePlan cid q) := by
  have hkeys : ∀ cid', cid' ≠ cid → (s.replacePlan cid q).keys cid' = s.keys cid' := by
    intro cid' hne
    show (Function.update s.plans cid q cid').map Plan.keys = _
    rw [Function.update_of_ne hne]
    rfl
  have hgen : ∀ cid', cid' ≠ cid → (s.replacePlan cid q).gen cid' = s.gen cid' :=
    fun cid' hne => Function.update_of_ne hne _ _
  refine ⟨?_, ?_, h.records, h.reports, ?_⟩
  · intro cid' ks hks
    by_cases heq : cid' = cid
    · subst heq
      obtain ⟨p, hp, rfl⟩ := Option.map_eq_some_iff.mp hks
      have hq : q = some p := by
        rw [← hp]
        exact (Function.update_self cid' q s.plans).symm
      unfold Plan.keys
      rw [List.map_map]
      exact hids p hq
    · rw [hkeys cid' heq] at hks
      exact h.ids cid' ks hks
  · intro o ho
    obtain ⟨hle, hcur⟩ := h.ops o ho
    by_cases heq : o.planId = cid
    · have hself : (s.replacePlan cid q).gen o.planId = s.gen o.planId + 1 := by
        rw [heq]
        exact Function.update_self _ _ _
      rw [hself]
      exact ⟨by omega, fun hgen' => absurd hgen' (by omega)⟩
    · rw [hgen _ heq, hkeys _ heq]
      exact ⟨hle, hcur⟩
  · intro cid' hosts cluster i n hph
    have hne : cid' ≠ cid := by
      rintro rfl
      exact hphase hosts cluster i n hph
    rw [hkeys cid' hne]
    exact h.phases cid' hosts cluster i n hph

/-- Only the plan changes, and it keeps its actions. -/
theorem Inv.setPlan (h : Inv s) (hp : s.plans cid = some p) (hkeys : p'.keys = p.keys) :
    Inv (s.setPlan cid (some p')) :=
  h.frame (keys_setPlan hp hkeys) rfl rfl h.records h.reports fun _ _ _ _ _ hph => hph

/-- The plan is in no loop, or in one that starts no action. -/
theorem Inv.setPhase (h : Inv s) {ph : Phase}
    (hph : ∀ hosts cluster i n, ph ≠ .starting hosts cluster i n) : Inv (s.setPhase cid ph) := by
  refine h.frame (fun _ => rfl) rfl rfl h.records h.reports ?_
  intro cid' hosts cluster i n hstart
  by_cases heq : cid' = cid
  · subst heq
    rw [show (s.setPhase cid' ph).phase cid' = ph from Function.update_self _ _ _] at hstart
    exact absurd hstart (hph hosts cluster i n)
  · rwa [show (s.setPhase cid ph).phase cid' = s.phase cid' from Function.update_of_ne heq _ _]
      at hstart

theorem Inv.setHistory (h : Inv s) {vm : ℤ} {hist : History}
    (hr : ∀ r, hist.current = some r ∨ hist.previous = some r →
      s.WrittenBy r.planId r.actionId r.writtenFor) : Inv (s.setHistory vm hist) := by
  refine h.frame (fun _ => rfl) rfl rfl ?_ h.reports fun _ _ _ _ _ hph => hph
  intro vm' r' hr'
  by_cases heq : vm' = vm
  · subst heq
    rw [show (s.setHistory vm' hist).vms vm' = hist from Function.update_self _ _ _] at hr'
    exact hr r' hr'
  · rw [show (s.setHistory vm hist).vms vm' = s.vms vm' from Function.update_of_ne heq _ _] at hr'
    exact h.records vm' r' hr'

theorem Inv.newHistory (h : Inv s) {vm : ℤ} {r : Option Record}
    (hr : ∀ r', r = some r' → s.WrittenBy r'.planId r'.actionId r'.writtenFor) :
    Inv (PlanManager.newHistory s vm r) := by
  refine h.setHistory ?_
  intro r' hr'
  rcases hr' with hr' | hr'
  · exact hr r' hr'
  · exact h.records vm r' (Or.inl hr')

theorem ne_starting_of_unlocked (h : unlocked s cid = true) (hosts : ℤ → ℕ) (cluster i n : ℕ) :
    s.phase cid ≠ .starting hosts cluster i n := by
  intro hph
  rw [unlocked, hph] at h
  exact absurd h (by simp)

theorem Inv.addPlan (h : Inv s) (hunlocked : unlocked s cid = true) {actions : List PlanAction}
    (hids : (actions.map PlanAction.id).Nodup) (cluster : Option DrsAutomation) :
    Inv (PlanManager.addPlan s cid actions cluster) := by
  have hreplace : ∀ st, Inv (s.replacePlan cid (some ⟨st, actions⟩)) := by
    intro st
    refine h.replacePlan (ne_starting_of_unlocked hunlocked) ?_
    intro p hp
    rw [← Option.some.inj hp]
    exact hids
  unfold PlanManager.addPlan
  split
  · exact h
  split
  · exact h
  split
  · split
    · exact h
    · exact hreplace _
  split
  · exact h
  split
  · exact h
  split
  · exact hreplace _
  · exact hreplace _

theorem Inv.startPlan (h : Inv s) : Inv (PlanManager.startPlan s cid) := by
  unfold PlanManager.startPlan
  split
  · exact h
  · rename_i p hp
    split
    · exact h
    · exact h.setPlan hp rfl

theorem Inv.replaceEmpty (h : Inv s) (hphase : ∀ hosts cluster i n,
    s.phase cid ≠ .starting hosts cluster i n) : Inv (s.replacePlan cid (some ⟨.none, []⟩)) := by
  refine h.replacePlan hphase ?_
  intro p hp
  rw [← Option.some.inj hp]
  exact List.nodup_nil

theorem Inv.beginExecution (h : Inv s) (cfg : Config) (now : ℤ) :
    Inv (PlanManager.beginExecution cfg s cid now) := by
  unfold PlanManager.beginExecution
  split
  · exact h
  · rename_i p hp
    split
    · refine Inv.setPhase (h.setPlan hp (keys_timeoutActions p _ _)) ?_
      intro hosts cluster i n heq
      exact absurd heq (by simp)
    · exact h

/-- **An action is started.** -/
theorem Inv.startAction (h : Inv s) {cfg : Config} {now : ℤ} {accepted : Bool}
    (hstep : PlanManager.startAction cfg s cid now accepted = some t) : Inv t := by
  unfold PlanManager.startAction at hstep
  split at hstep
  · rename_i p hosts cluster hp hph
    split at hstep
    · exact absurd hstep (by simp)
    rename_i i hi
    split at hstep
    · exact absurd hstep (by simp)
    rename_i a ha
    split at hstep
    · exact absurd hstep (by simp)
    split at hstep
    · -- the operation is of this action
      obtain rfl := Option.some.inj hstep
      have hkeep : Plan.keys { p with
          actions := p.actions.modify i fun a => { a with timestamp := now } } = p.keys :=
        keys_modify p i _ fun a => ⟨rfl, rfl⟩
      have hkeys := keys_setPlan hp hkeep
      have hcid : s.keys cid = some p.keys := by rw [State.keys, hp, Option.map_some]
      have hat : p.keys[i]? = some (a.id, a.vmId) := by rw [Plan.keys, List.getElem?_map, ha]; rfl
      have hwritten : ∀ planId actionId op, s.WrittenBy planId actionId op →
          ∀ n, op = some n → ∃ o, (s.started ++ [⟨cid, s.gen cid, a.id, a.vmId⟩])[n]? = some o ∧
            o.planId = planId ∧ o.actionId = actionId := by
        intro planId actionId op hw n hn
        obtain ⟨o, ho, heq⟩ := hw n hn
        refine ⟨o, ?_, heq⟩
        rw [List.getElem?_append_left (List.getElem?_eq_some_iff.mp ho).1, ho]
      refine ⟨?_, ?_, fun vm r hr => hwritten _ _ _ (h.records vm r hr),
        fun r hr => hwritten _ _ _ (h.reports r hr), ?_⟩
      · intro cid' ks hks
        exact h.ids cid' ks ((hkeys cid').symm.trans hks)
      · intro o ho
        rcases List.mem_append.mp ho with ho | ho
        · obtain ⟨hle, hcur⟩ := h.ops o ho
          refine ⟨hle, fun hgen => ?_⟩
          obtain ⟨ks, hks, hmem⟩ := hcur hgen
          exact ⟨ks, (hkeys _).trans hks, hmem⟩
        · rw [List.mem_singleton.mp ho]
          exact ⟨le_refl _, fun _ => ⟨p.keys, (hkeys cid).trans hcid, List.mem_of_getElem? hat⟩⟩
      · intro cid' hosts' cluster' j n hph'
        by_cases heq : cid' = cid
        · subst heq
          have hself : Phase.starting hosts cluster i s.started.length =
              .starting hosts' cluster' j n := (Function.update_self _ _ _).symm.trans hph'
          rw [Phase.starting.injEq] at hself
          obtain ⟨-, -, rfl, rfl⟩ := hself
          exact ⟨⟨cid', s.gen cid', a.id, a.vmId⟩, p.keys, List.getElem?_concat_length, rfl,
            (hkeys cid').trans hcid, hat⟩
        · have hold : s.phase cid' = .starting hosts' cluster' j n :=
            (Function.update_of_ne heq _ _).symm.trans hph'
          obtain ⟨o, ks, ho, hplan, hks, hget⟩ := h.phases cid' hosts' cluster' j n hold
          refine ⟨o, ks, ?_, hplan, (hkeys cid').trans hks, hget⟩
          show (s.started ++ _)[n]? = some o
          rw [List.getElem?_append_left (List.getElem?_eq_some_iff.mp ho).1, ho]
    · obtain rfl := Option.some.inj hstep
      exact h.setPlan hp (keys_modify p i _ fun a => ⟨rfl, rfl⟩)
  · exact absurd hstep (by simp)

/-- **The record of the virtual machine is written.** -/
theorem Inv.writeRecord (h : Inv s) (hstep : PlanManager.writeRecord s cid = some t) : Inv t := by
  unfold PlanManager.writeRecord at hstep
  split at hstep
  · rename_i p hosts cluster i n hp hph
    split at hstep
    · exact absurd hstep (by simp)
    rename_i a ha
    obtain rfl := Option.some.inj hstep
    obtain ⟨o, ks, ho, hplan, hks, hget⟩ := h.phases cid hosts cluster i n hph
    have hid : a.id = o.actionId := by
      rw [State.keys, hp, Option.map_some] at hks
      rw [← Option.some.inj hks, Plan.keys, List.getElem?_map, ha, Option.map_some] at hget
      exact congrArg Prod.fst (Option.some.inj hget)
    have hkeep : Plan.keys { p with
        actions := p.actions.modify i fun a => { a with state := .applying } } = p.keys :=
      keys_modify p i _ fun a => ⟨rfl, rfl⟩
    refine Inv.setHistory (Inv.setPhase (h.setPlan hp hkeep) ?_) ?_
    · intro hosts' cluster' j m heq
      exact absurd heq (by simp)
    · intro r hr
      split at hr
      · exact h.records a.vmId r hr
      · rcases hr with hr | hr
        · rw [← Option.some.inj hr]
          intro m hm
          rw [← Option.some.inj hm]
          exact ⟨o, ho, hplan, hid.symm⟩
        · exact h.records a.vmId r (Or.inr hr)
  · exact absurd hstep (by simp)

theorem Inv.endExecution (h : Inv s) (hstep : PlanManager.endExecution s cid = some t) : Inv t := by
  unfold PlanManager.endExecution at hstep
  split at hstep
  · rename_i p hosts cluster hp hph
    obtain rfl := Option.some.inj hstep
    exact Inv.setPhase (h.setPlan hp (keys_checkCompleted p)) fun _ _ _ _ heq => absurd heq (by simp)
  · exact absurd hstep (by simp)

theorem Inv.actionFinished (h : Inv s) (r : Report) : Inv (PlanManager.actionFinished s r) := by
  unfold PlanManager.actionFinished
  split
  · exact h
  · rename_i p hp
    dsimp only
    split
    · exact h.setPlan hp ((keys_checkCompleted _).trans (keys_actionFinished p _ _))
    · exact h

theorem Inv.report (h : Inv s) {vm : ℤ} {success : Bool} {ended : Option ℕ}
    (hstep : PlanManager.report s vm success ended = some t) : Inv t := by
  unfold PlanManager.report at hstep
  split at hstep
  · split at hstep
    · rename_i r hr
      split at hstep
      · obtain rfl := Option.some.inj hstep
        refine h.frame (fun _ => rfl) rfl rfl h.records ?_ fun _ _ _ _ _ hph => hph
        intro r' hr'
        rcases List.mem_append.mp hr' with hr' | hr'
        · exact h.reports r' hr'
        · rw [List.mem_singleton.mp hr']
          exact h.records vm r (Or.inl hr)
      · exact Option.some.inj hstep ▸ h
    · exact Option.some.inj hstep ▸ h
  · exact absurd hstep (by simp)

end Steps

/-! ## Runs -/

/-- The report comes from a record that was written for the operation that has ended, and its plan was
not replaced since the operation was started. -/
def Report.Fresh (s : State) (r : Report) : Prop :=
  ∃ n o, r.ended = some n ∧ r.writtenFor = some n ∧ s.started[n]? = some o ∧
    o.gen = s.gen r.planId

/-- A plan has an action of a number that waits for its report. -/
def State.Expects (s : State) (cid id : ℤ) : Prop :=
  ∃ p, s.plans cid = some p ∧ ∃ a ∈ p.actions, a.id = id ∧ a.Waits

/-- **The steps after which every report ends its own action**: the actions of a plan have different
numbers, and a report that finds a waiting action is fresh. -/
def Allowed (s : State) : Event → Prop
  | .addPlan _ actions _ => (actions.map PlanAction.id).Nodup
  | .deliver i => ∀ r, s.inbox[i]? = some r → s.Expects r.planId r.actionId → r.Fresh s
  | _ => True

/-- **An allowed step keeps the invariant.** -/
theorem Inv.step {cfg : Config} {s t : State} {e : Event} (h : Inv s) (hallowed : Allowed s e)
    (hstep : PlanManager.step cfg s e = some t) : Inv t := by
  cases e with
  | addPlan cid actions cluster =>
    obtain ⟨hunlocked, hstep⟩ := Option.ite_none_right_eq_some.mp hstep
    exact Option.some.inj hstep ▸ h.addPlan hunlocked hallowed cluster
  | startPlan cid =>
    obtain ⟨-, hstep⟩ := Option.ite_none_right_eq_some.mp hstep
    exact Option.some.inj hstep ▸ h.startPlan
  | deletePlan cid =>
    obtain ⟨hunlocked, hstep⟩ := Option.ite_none_right_eq_some.mp hstep
    obtain rfl := Option.some.inj hstep
    unfold PlanManager.deletePlan
    split
    · exact h
    split
    · exact h
    · exact h.replaceEmpty (ne_starting_of_unlocked hunlocked)
  | insertPlan cid =>
    obtain ⟨hnone, hstep⟩ := Option.ite_none_right_eq_some.mp hstep
    refine Option.some.inj hstep ▸ h.replaceEmpty ?_
    intro hosts cluster i n hph
    obtain ⟨o, ks, -, -, hks, -⟩ := h.phases cid hosts cluster i n hph
    rw [State.keys, Option.isNone_iff_eq_none.mp hnone] at hks
    exact absurd hks (by simp)
  | dropPlan cid =>
    obtain ⟨hunlocked, hstep⟩ := Option.ite_none_right_eq_some.mp hstep
    exact Option.some.inj hstep ▸
      h.replacePlan (ne_starting_of_unlocked hunlocked) fun p hp => absurd hp (by simp)
  | beginExecution cid now =>
    obtain ⟨-, hstep⟩ := Option.ite_none_right_eq_some.mp hstep
    exact Option.some.inj hstep ▸ h.beginExecution cfg now
  | startAction cid now accepted => exact h.startAction hstep
  | writeRecord cid => exact h.writeRecord hstep
  | endExecution cid => exact h.endExecution hstep
  | addHistory vm =>
    refine Option.some.inj hstep ▸ h.newHistory ?_
    intro r hr n hn
    rw [← Option.some.inj hr] at hn
    exact absurd hn (by simp [Record.new])
  | cpHistory vm =>
    obtain ⟨-, hstep⟩ := Option.ite_none_right_eq_some.mp hstep
    exact Option.some.inj hstep ▸ h.newHistory fun r hr => h.records vm r (Or.inl hr)
  | cpPreviousHistory vm =>
    obtain ⟨-, hstep⟩ := Option.ite_none_right_eq_some.mp hstep
    exact Option.some.inj hstep ▸ h.newHistory fun r hr => h.records vm r (Or.inr hr)
  | report vm success ended => exact h.report hstep
  | deliver i =>
    unfold PlanManager.step at hstep
    dsimp only at hstep
    split at hstep
    · rename_i r hr
      obtain ⟨-, hstep⟩ := Option.ite_none_right_eq_some.mp hstep
      refine Option.some.inj hstep ▸ Inv.actionFinished ?_ r
      refine h.frame (fun _ => rfl) rfl rfl h.records ?_ fun _ _ _ _ _ hph => hph
      exact fun r' hr' => h.reports r' (List.mem_of_mem_eraseIdx hr')
    · exact absurd hstep (by simp)

/-! ## Ends of actions -/

/-- The action has ended. -/
def PlanAction.Ended (a : PlanAction) : Prop := a.state = .done ∨ a.state = .error

/-- **Every action that ends is ended by a report about its own operation**: the operation was started for
this action of this plan, on the virtual machine of the action, and no other action of the plan has its
number. -/
def Right (s : State) (e : Event) (t : State) : Prop :=
  ∀ cid p p' (i : ℕ) (a a' : PlanAction), s.plans cid = some p → t.plans cid = some p' → t.gen cid = s.gen cid →
    p.actions[i]? = some a → p'.actions[i]? = some a' → a.Waits → a'.Ended →
    (∃ (k : ℕ) (r : Report) (n : ℕ), e = .deliver k ∧ s.inbox[k]? = some r ∧ r.ended = some n ∧
      s.started[n]? = some ⟨cid, s.gen cid, a.id, a.vmId⟩) ∧
    ∀ (j : ℕ) (b : PlanAction), p.actions[j]? = some b → b.id = a.id → j = i

/-- No action that waits has ended. -/
def NoEnd (s t : State) : Prop :=
  ∀ cid p p' (i : ℕ) (a a' : PlanAction), s.plans cid = some p → t.plans cid = some p' → t.gen cid = s.gen cid →
    p.actions[i]? = some a → p'.actions[i]? = some a' → a.Waits → ¬a'.Ended

theorem not_ended_of_waits {a : PlanAction} (h : a.Waits) : ¬a.Ended := by
  rintro (hd | hd) <;> rcases h with h | h <;> rw [h] at hd <;> exact absurd hd (by decide)

section NoEnd

variable {s t : State} {cid : ℤ} {p p' : Plan}

theorem NoEnd.right (h : NoEnd s t) (e : Event) : Right s e t :=
  fun cid p p' i a a' hp hp' hgen ha ha' hw he =>
    absurd he (h cid p p' i a a' hp hp' hgen ha ha' hw)

theorem noEnd_of_plans (h : t.plans = s.plans) : NoEnd s t := by
  intro cid p p' i a a' hp hp' _ ha ha' hw
  rw [h, hp] at hp'
  obtain rfl := Option.some.inj hp'
  rw [ha] at ha'
  exact Option.some.inj ha' ▸ not_ended_of_waits hw

theorem noEnd_replacePlan (q : Option Plan) : NoEnd s (s.replacePlan cid q) := by
  intro cid' p p' i a a' hp hp' hgen ha ha' hw
  by_cases heq : cid' = cid
  · subst heq
    rw [show (s.replacePlan cid' q).gen cid' = s.gen cid' + 1 from Function.update_self _ _ _] at hgen
    omega
  · rw [show (s.replacePlan cid q).plans cid' = s.plans cid' from Function.update_of_ne heq _ _, hp]
      at hp'
    obtain rfl := Option.some.inj hp'
    rw [ha] at ha'
    exact Option.some.inj ha' ▸ not_ended_of_waits hw

/-- One plan changes, and none of its waiting actions ends. -/
theorem noEnd_of_plan (hp : s.plans cid = some p)
    (ht : t.plans = Function.update s.plans cid (some p'))
    (h : ∀ (i : ℕ) (a a' : PlanAction), p.actions[i]? = some a → p'.actions[i]? = some a' → a.Waits → ¬a'.Ended) :
    NoEnd s t := by
  intro cid' q q' i a a' hq hq' _ ha ha' hw
  rw [ht] at hq'
  by_cases heq : cid' = cid
  · subst heq
    rw [Function.update_self] at hq'
    rw [hp] at hq
    obtain rfl := Option.some.inj hq
    obtain rfl := Option.some.inj hq'
    exact h i a a' ha ha' hw
  · rw [Function.update_of_ne heq, hq] at hq'
    obtain rfl := Option.some.inj hq'
    rw [ha] at ha'
    exact Option.some.inj ha' ▸ not_ended_of_waits hw

/-- An action of the list after a change of one of them. -/
theorem getElem?_modify_cases {l : List PlanAction} {i₀ i : ℕ} {f : PlanAction → PlanAction}
    {a a' : PlanAction} (ha : l[i]? = some a) (ha' : (l.modify i₀ f)[i]? = some a') :
    a' = a ∧ i ≠ i₀ ∨ a' = f a ∧ i = i₀ := by
  rw [List.getElem?_modify, ha] at ha'
  have ha' : (if i₀ = i then f a else a) = a' := Option.some.inj ha'
  by_cases h : i₀ = i
  · rw [if_pos h] at ha'
    exact Or.inr ⟨ha'.symm, h.symm⟩
  · rw [if_neg h] at ha'
    exact Or.inl ⟨ha'.symm, fun heq => h heq.symm⟩

theorem noEnd_addPlan (actions : List PlanAction) (cluster : Option DrsAutomation) :
    NoEnd s (addPlan s cid actions cluster) := by
  unfold addPlan
  have hsame : NoEnd s s := noEnd_of_plans rfl
  split
  · exact hsame
  split
  · exact hsame
  split
  · split
    · exact hsame
    · exact noEnd_replacePlan _
  split
  · exact hsame
  split
  · exact hsame
  split
  · exact noEnd_replacePlan _
  · exact noEnd_replacePlan _

theorem noEnd_startPlan : NoEnd s (startPlan s cid) := by
  unfold startPlan
  split
  · exact noEnd_of_plans rfl
  · rename_i p hp
    split
    · exact noEnd_of_plans rfl
    · refine noEnd_of_plan hp rfl ?_
      intro i a a' ha ha' hw
      rw [show _ = some a from ha] at ha'
      exact Option.some.inj ha' ▸ not_ended_of_waits hw

theorem noEnd_beginExecution (cfg : Config) (now : ℤ) : NoEnd s (beginExecution cfg s cid now) := by
  unfold beginExecution
  split
  · exact noEnd_of_plans rfl
  · rename_i p hp
    split
    · refine noEnd_of_plan hp rfl ?_
      intro i a a' ha ha' hw
      rw [Plan.timeoutActions, List.getElem?_map, ha, Option.map_some] at ha'
      rw [← Option.some.inj ha']
      split
      · rintro (hd | hd) <;> exact absurd hd (by simp)
      · exact not_ended_of_waits hw
    · exact noEnd_of_plans rfl

theorem noEnd_startAction {cfg : Config} {now : ℤ} {accepted : Bool}
    (hstep : startAction cfg s cid now accepted = some t) : NoEnd s t := by
  unfold startAction at hstep
  split at hstep
  · rename_i p hosts cluster hp hph
    split at hstep
    · exact absurd hstep (by simp)
    rename_i i₀ hi₀
    split at hstep
    · exact absurd hstep (by simp)
    rename_i a₀ ha₀
    have hready : ∀ a, p.actions[i₀]? = some a → ¬a.Waits := by
      intro a ha hw
      obtain ⟨hlt, hst, -⟩ := List.findIdx?_eq_some_iff_getElem.mp hi₀
      rw [List.getElem?_eq_getElem hlt] at ha
      rw [Option.some.inj ha] at hst
      rcases hw with hw | hw <;> rw [hw] at hst <;> exact absurd hst (by decide)
    split at hstep
    · exact absurd hstep (by simp)
    split at hstep
    all_goals
      obtain rfl := Option.some.inj hstep
      refine noEnd_of_plan hp rfl ?_
      intro i a a' ha ha' hw
      rcases getElem?_modify_cases ha ha' with ⟨rfl, -⟩ | ⟨rfl, rfl⟩
      · exact not_ended_of_waits hw
      · exact absurd hw (hready a ha)
  · exact absurd hstep (by simp)

theorem noEnd_writeRecord (hstep : writeRecord s cid = some t) : NoEnd s t := by
  unfold writeRecord at hstep
  split at hstep
  · rename_i p hosts cluster i₀ n hp hph
    split at hstep
    · exact absurd hstep (by simp)
    obtain rfl := Option.some.inj hstep
    refine noEnd_of_plan hp rfl ?_
    intro i a a' ha ha' hw
    rcases getElem?_modify_cases ha ha' with ⟨rfl, -⟩ | ⟨rfl, -⟩
    · exact not_ended_of_waits hw
    · rintro (hd | hd) <;> exact absurd hd (by simp)
  · exact absurd hstep (by simp)

theorem noEnd_endExecution (hstep : endExecution s cid = some t) : NoEnd s t := by
  unfold endExecution at hstep
  split at hstep
  · rename_i p hosts cluster hp hph
    obtain rfl := Option.some.inj hstep
    refine noEnd_of_plan hp rfl ?_
    intro i a a' ha ha' hw
    rw [actions_checkCompleted, ha] at ha'
    exact Option.some.inj ha' ▸ not_ended_of_waits hw
  · exact absurd hstep (by simp)

end NoEnd

theorem index_unique {l : List PlanAction} (h : (l.map PlanAction.id).Nodup) {i j : ℕ}
    {a b : PlanAction} (ha : l[i]? = some a) (hb : l[j]? = some b) (hid : b.id = a.id) : j = i := by
  have hlt : j < (l.map PlanAction.id).length := by
    rw [List.length_map]
    exact (List.getElem?_eq_some_iff.mp hb).1
  refine (List.getElem?_inj hlt h).mp ?_
  rw [List.getElem?_map, List.getElem?_map, ha, hb, Option.map_some, Option.map_some, hid]

/-- The operation that a fresh report is about was started for the action of its number. -/
theorem Inv.started_of_fresh {s : State} (h : Inv s) {r : Report} (hr : r ∈ s.inbox)
    (hfresh : r.Fresh s) {p : Plan} (hp : s.plans r.planId = some p) {a : PlanAction}
    (ha : a ∈ p.actions) (hid : a.id = r.actionId) :
    ∃ n, r.ended = some n ∧ s.started[n]? = some ⟨r.planId, s.gen r.planId, a.id, a.vmId⟩ := by
  obtain ⟨n, o, hended, hwritten, ho, hgen⟩ := hfresh
  obtain ⟨o', ho', hplan, haction⟩ := h.reports r hr n hwritten
  rw [ho] at ho'
  obtain rfl := Option.some.inj ho'
  have hkeys : s.keys r.planId = some p.keys := by rw [State.keys, hp, Option.map_some]
  have hmem : (a.id, a.vmId) ∈ p.keys := List.mem_map_of_mem ha
  obtain ⟨ks, hks, hin⟩ := (h.ops o (List.mem_of_getElem? ho)).2 (by rw [hplan]; exact hgen)
  rw [hplan, hkeys] at hks
  rw [← Option.some.inj hks, haction, ← hid] at hin
  have hvm : o.vm = a.vmId :=
    congrArg Prod.snd (List.inj_on_of_nodup_map (h.ids r.planId p.keys hkeys) hin hmem rfl)
  refine ⟨n, hended, ho.trans (congrArg some ?_)⟩
  obtain ⟨oplan, ogen, oaction, ovm⟩ := o
  dsimp only at hplan haction hgen hvm
  rw [hplan, haction, hgen, hvm, hid]

/-- **A fresh report ends the action that it is about.** -/
theorem Inv.right_deliver {s : State} (h : Inv s) {k : ℕ} {r : Report} (hr : s.inbox[k]? = some r)
    (hfresh : s.Expects r.planId r.actionId → r.Fresh s) :
    Right s (.deliver k) (PlanManager.actionFinished { s with inbox := s.inbox.eraseIdx k } r) := by
  unfold PlanManager.actionFinished
  split
  · exact (noEnd_of_plans rfl).right _
  rename_i p hp
  have hp : s.plans r.planId = some p := hp
  cases hi₀ : p.actions.findIdx? fun a => decide (a.id = r.actionId) && decide a.Waits with
  | none =>
    rw [Plan.actionFinished, hi₀]
    exact (noEnd_of_plans rfl).right _
  | some i₀ =>
    rw [Plan.actionFinished, hi₀]
    dsimp only
    rw [if_pos rfl]
    obtain ⟨hlt, hmatch, -⟩ := List.findIdx?_eq_some_iff_getElem.mp hi₀
    rw [Bool.and_eq_true, decide_eq_true_eq, decide_eq_true_eq] at hmatch
    intro cid q q' i a a' hq hq' _ ha ha' hw he
    by_cases hcid : cid = r.planId
    · subst hcid
      rw [hp] at hq
      obtain rfl := Option.some.inj hq
      rw [show (State.setPlan _ r.planId _).plans r.planId = _ from Function.update_self _ _ _] at hq'
      rw [← Option.some.inj hq', actions_checkCompleted] at ha'
      rcases getElem?_modify_cases ha ha' with ⟨rfl, -⟩ | ⟨-, rfl⟩
      · exact absurd he (not_ended_of_waits hw)
      have hget := ha
      rw [List.getElem?_eq_getElem hlt] at hget
      rw [Option.some.inj hget] at hmatch
      have hmem : a ∈ p.actions := List.mem_of_getElem? ha
      obtain ⟨n, hended, hstarted⟩ := h.started_of_fresh (List.mem_of_getElem? hr)
        (hfresh ⟨p, hp, a, hmem, hmatch⟩) hp hmem hmatch.1
      refine ⟨⟨k, r, n, rfl, hr, hended, hstarted⟩, ?_⟩
      intro j b hb hbid
      have hnodup := h.ids r.planId p.keys (by rw [State.keys, hp, Option.map_some])
      rw [Plan.keys, List.map_map] at hnodup
      exact index_unique hnodup ha hb hbid
    · have hsame : some q' = some q := hq'.symm.trans ((Function.update_of_ne hcid _ _).trans hq)
      rw [Option.some.inj hsame, ha] at ha'
      exact absurd (Option.some.inj ha' ▸ he) (not_ended_of_waits hw)

theorem plans_report {s t : State} {vm : ℤ} {success : Bool} {ended : Option ℕ}
    (hstep : report s vm success ended = some t) : t.plans = s.plans := by
  unfold report at hstep
  split at hstep
  · split at hstep
    · split at hstep
      · exact Option.some.inj hstep ▸ rfl
      · exact Option.some.inj hstep ▸ rfl
    · exact Option.some.inj hstep ▸ rfl
  · exact absurd hstep (by simp)

theorem Inv.right {cfg : Config} {s t : State} {e : Event} (h : Inv s) (hallowed : Allowed s e)
    (hstep : PlanManager.step cfg s e = some t) : Right s e t := by
  cases e with
  | addPlan cid actions cluster =>
    obtain ⟨-, hstep⟩ := Option.ite_none_right_eq_some.mp hstep
    exact Option.some.inj hstep ▸ (noEnd_addPlan actions cluster).right _
  | startPlan cid =>
    obtain ⟨-, hstep⟩ := Option.ite_none_right_eq_some.mp hstep
    exact Option.some.inj hstep ▸ noEnd_startPlan.right _
  | deletePlan cid =>
    obtain ⟨-, hstep⟩ := Option.ite_none_right_eq_some.mp hstep
    obtain rfl := Option.some.inj hstep
    unfold deletePlan
    split
    · exact (noEnd_of_plans rfl).right _
    split
    · exact (noEnd_of_plans rfl).right _
    · exact (noEnd_replacePlan _).right _
  | insertPlan cid =>
    obtain ⟨-, hstep⟩ := Option.ite_none_right_eq_some.mp hstep
    exact Option.some.inj hstep ▸ (noEnd_replacePlan _).right _
  | dropPlan cid =>
    obtain ⟨-, hstep⟩ := Option.ite_none_right_eq_some.mp hstep
    exact Option.some.inj hstep ▸ (noEnd_replacePlan _).right _
  | beginExecution cid now =>
    obtain ⟨-, hstep⟩ := Option.ite_none_right_eq_some.mp hstep
    exact Option.some.inj hstep ▸ (noEnd_beginExecution cfg now).right _
  | startAction cid now accepted => exact (noEnd_startAction hstep).right _
  | writeRecord cid => exact (noEnd_writeRecord hstep).right _
  | endExecution cid => exact (noEnd_endExecution hstep).right _
  | addHistory vm => exact Option.some.inj hstep ▸ (noEnd_of_plans rfl).right _
  | cpHistory vm =>
    obtain ⟨-, hstep⟩ := Option.ite_none_right_eq_some.mp hstep
    exact Option.some.inj hstep ▸ (noEnd_of_plans rfl).right _
  | cpPreviousHistory vm =>
    obtain ⟨-, hstep⟩ := Option.ite_none_right_eq_some.mp hstep
    exact Option.some.inj hstep ▸ (noEnd_of_plans rfl).right _
  | report vm success ended => exact (noEnd_of_plans (plans_report hstep)).right _
  | deliver k =>
    unfold PlanManager.step at hstep
    dsimp only at hstep
    split at hstep
    · rename_i r hr
      obtain ⟨-, hstep⟩ := Option.ite_none_right_eq_some.mp hstep
      exact Option.some.inj hstep ▸ h.right_deliver hr (hallowed r hr)
    · exact absurd hstep (by simp)

/-- **In a run of allowed steps every report ends the action whose operation it is about.** -/
theorem right_of_reach {cfg : Config} {s t : State} {e : Event}
    (hreach : Reach (step cfg) Allowed init s) (hallowed : Allowed s e)
    (hstep : step cfg s e = some t) : Right s e t := by
  have hinv : Inv s := hreach.inv inv_init fun _ _ _ h hok hst => h.step hok hst
  exact hinv.right hallowed hstep

/-! ### Two runs -/

section Decidable

instance (s : State) (r : Report) : Decidable (r.Fresh s) :=
  decidable_of_iff (∃ n ∈ r.ended, r.writtenFor = some n ∧ ∃ o ∈ s.started[n]?,
    o.gen = s.gen r.planId)
    ⟨fun ⟨n, hn, hw, o, ho, hg⟩ => ⟨n, o, hn, hw, ho, hg⟩,
      fun ⟨n, o, hn, hw, ho, hg⟩ => ⟨n, hn, hw, o, ho, hg⟩⟩

instance (s : State) (cid id : ℤ) : Decidable (s.Expects cid id) :=
  inferInstanceAs (Decidable (∃ p ∈ s.plans cid, ∃ a ∈ p.actions, a.id = id ∧ a.Waits))

instance (s : State) (e : Event) : Decidable (Allowed s e) :=
  match e with
  | .addPlan _ actions _ => inferInstanceAs (Decidable (actions.map PlanAction.id).Nodup)
  | .deliver i => inferInstanceAs (Decidable
      (∀ r ∈ s.inbox[i]?, s.Expects r.planId r.actionId → r.Fresh s))
  | .startPlan _ => inferInstanceAs (Decidable True)
  | .deletePlan _ => inferInstanceAs (Decidable True)
  | .insertPlan _ => inferInstanceAs (Decidable True)
  | .dropPlan _ => inferInstanceAs (Decidable True)
  | .beginExecution _ _ => inferInstanceAs (Decidable True)
  | .startAction _ _ _ => inferInstanceAs (Decidable True)
  | .writeRecord _ => inferInstanceAs (Decidable True)
  | .endExecution _ => inferInstanceAs (Decidable True)
  | .addHistory _ => inferInstanceAs (Decidable True)
  | .cpHistory _ => inferInstanceAs (Decidable True)
  | .cpPreviousHistory _ => inferInstanceAs (Decidable True)
  | .report _ _ _ => inferInstanceAs (Decidable True)

end Decidable

/-- The options of the examples. -/
def exampleConfig : Config := ⟨1, 1, 60⟩

/-- A placement plan with one action on a virtual machine. -/
def placement (vm : ℤ) : Event := .addPlan (-1) [⟨0, vm, 3, .ready, 0⟩] none

/-- The action of the placement plan is started at a time, on a virtual machine that gets a history
record. -/
def startOn (vm now : ℤ) : List Event :=
  [.addHistory vm, .beginExecution (-1) now, .startAction (-1) now true, .writeRecord (-1),
    .endExecution (-1)]

/-- A placement on the virtual machine `1` whose operation has ended. -/
def placedRun : List Event := placement 1 :: startOn 1 100 ++ [.report 1 true (some 0)]

/-- The end of `placedRun`, when all its steps are allowed. -/
def placedState : Option State := runChecked (step exampleConfig) Allowed init placedRun

theorem right_placedState : ∃ s t, placedState = some s ∧
    step exampleConfig s (.deliver 0) = some t ∧ Right s (.deliver 0) t ∧
    (t.plans (-1)).map Plan.state = some .done := by
  have hdone : ((placedState.bind fun s => step exampleConfig s (.deliver 0)).bind fun t =>
      (t.plans (-1)).map Plan.state) = some .done := by decide
  have hallowed : (placedState.map fun s => decide (Allowed s (.deliver 0))) = some true := by
    decide
  obtain ⟨t, ht, hstate⟩ := Option.bind_eq_some_iff.mp hdone
  obtain ⟨s, hs, hstep⟩ := Option.bind_eq_some_iff.mp ht
  rw [hs, Option.map_some, Option.some.injEq, decide_eq_true_eq] at hallowed
  exact ⟨s, t, hs, hstep, right_of_reach (reach_of_runChecked placedRun hs) hallowed hstep, hstate⟩

/-- A placement on the virtual machine `1` takes too long and the plan is over; the next one is on the
virtual machine `2`; then the operation of the virtual machine `1` ends. -/
def lateRun : List Event :=
  placement 1 :: startOn 1 100 ++
    [.beginExecution (-1) 200, .endExecution (-1), placement 2] ++ startOn 2 200 ++
    [.report 1 true (some 0)]

/-- The state at the end of `lateRun` and the one after the report. -/
def lateEnds : Option (State × State) :=
  (runEvents (step exampleConfig) init lateRun).bind fun s =>
    (step exampleConfig s (.deliver 0)).map fun t => (s, t)

/-- **A late report ends an action of another virtual machine.** -/
theorem not_right_late : ∃ s t, Run (step exampleConfig) init s ∧
    step exampleConfig s (.deliver 0) = some t ∧ ¬Right s (.deliver 0) t := by
  have hends : (lateEnds.map fun e => ((e.1.plans (-1), e.2.plans (-1)), (e.1.gen (-1), e.2.gen (-1)),
      (e.1.inbox[0]?, e.1.started[0]?))) =
      some ((some ⟨.applying, [⟨0, 2, 3, .applying, 200⟩]⟩, some ⟨.done, [⟨0, 2, 3, .done, 200⟩]⟩),
        (2, 2), (some ⟨-1, 0, .done, some 0, some 0⟩, some ⟨-1, 1, 0, 1⟩)) := by
    decide
  obtain ⟨⟨s, t⟩, hst, hends⟩ := Option.map_eq_some_iff.mp hends
  unfold lateEnds at hst
  obtain ⟨s', hs, hst⟩ := Option.bind_eq_some_iff.mp hst
  obtain ⟨t', ht, hst⟩ := Option.map_eq_some_iff.mp hst
  obtain ⟨rfl, rfl⟩ := Prod.mk.inj hst
  simp only [Prod.mk.injEq] at hends
  obtain ⟨⟨hplan, hplan'⟩, ⟨hgen, hgen'⟩, hinbox, hstarted⟩ := hends
  refine ⟨s', t', reach_of_runEvents lateRun (fun _ _ => trivial) hs, ht, ?_⟩
  intro hright
  obtain ⟨⟨k, r, n, hk, hr, hended, hn⟩, -⟩ := hright (-1) _ _ 0 _ _ hplan hplan'
    (hgen'.trans hgen.symm) rfl rfl (Or.inl rfl) (Or.inl rfl)
  obtain rfl := Event.deliver.inj hk
  rw [hinbox] at hr
  rw [← Option.some.inj hr] at hended
  obtain rfl := Option.some.inj hended
  rw [hstarted, Option.some.injEq] at hn
  have hvm : (1 : ℤ) = 2 := congrArg Operation.vm hn
  exact absurd hvm (by decide)

end PlanManager
