/-
# The execution of a plan (`src/schedm/PlanManager.cc`, `src/schedm/Plan.cc`)

`execute_plan` gives up the actions that take too long, counts the ones that are applying, for each host
and in all, and starts actions until the first one that is ready has a host, or a cluster, with too many of
them.  `limits_of_run` says what holds in every run of executions and reports: the limits, that no action
is started twice, when the plan is over and how.  The execution is a run of the steps of the manager
(`run_executePlan`).

Conventions of the embedding:

* An action is started at most once, so what the requests of an execution are answered is given by the
  position of the action.
* `started` has the positions of the actions that were started, in order.
-/
import OpenNebula.PlanReports

open Transition

namespace PlanManager

/-! ## The loop -/

/-- What the requests are answered, and when. -/
structure Answers where
  accepted : ℕ → Bool
  time : ℕ → ℤ

/-- The variables of the loop of `execute_plan`, and the actions that were started. -/
structure Execution where
  plan : Plan
  hostActions : ℤ → ℕ
  clusterActions : ℕ
  started : List ℕ

namespace Execution

/-- One turn of the loop; `none` when it is over. -/
def turn (cfg : Config) (ans : Answers) (x : Execution) : Option Execution :=
  match x.plan.getNextAction with
  | none => none
  | some i =>
    match x.plan.actions[i]? with
    | none => none
    | some a =>
      if cfg.maxActionsPerHost ≤ x.hostActions a.hostId ∨ cfg.maxActionsPerCluster ≤ x.clusterActions then
        none
      else if ans.accepted i then
        some
          { plan := { x.plan with
              actions := x.plan.actions.modify i fun a => { a with state := .applying, timestamp := ans.time i } }
            hostActions := Function.update x.hostActions a.hostId (x.hostActions a.hostId + 1)
            clusterActions := x.clusterActions + 1
            started := x.started ++ [i] }
      else
        some
          { x with
            plan := { x.plan with
              actions := x.plan.actions.modify i fun a => { a with state := .error, timestamp := ans.time i } }
            started := x.started ++ [i] }

/-- Some turns of the loop. -/
def turns (cfg : Config) (ans : Answers) : ℕ → Execution → Execution
  | 0, x => x
  | n + 1, x =>
    match x.turn cfg ans with
    | none => x
    | some y => turns cfg ans n y

/-- The loop begins. -/
def start (cfg : Config) (now : ℤ) (p : Plan) (started : List ℕ) : Execution :=
  let p := p.timeoutActions cfg.actionTimeout now
  ⟨p, p.hostActions, p.clusterActions, started⟩

end Execution

/-- A plan and the actions of it that were started. -/
structure Tracked where
  plan : Plan
  started : List ℕ

/-- The execution after the loop; there are at most as many turns as actions. -/
def executed (cfg : Config) (ans : Answers) (now : ℤ) (t : Tracked) : Execution :=
  (Execution.start cfg now t.plan t.started).turns cfg ans t.plan.actions.length

/-- `PlanManager::execute_plan`. -/
def executePlan (cfg : Config) (ans : Answers) (now : ℤ) (t : Tracked) : Tracked :=
  if t.plan.state = .applying then
    let x := executed cfg ans now t
    ⟨x.plan.checkCompleted, x.started⟩
  else t

/-- `PlanManager::action_finished` for the plan. -/
def planFinished (t : Tracked) (id : ℤ) (success : Bool) : Tracked :=
  let (p, found) := t.plan.actionFinished id (if success then .done else .error)
  if found then { t with plan := p.checkCompleted } else t

/-- What happens to a plan that is applying. -/
inductive PlanEvent
  | execute (now : ℤ) (ans : Answers)
  | finished (id : ℤ) (success : Bool)

/-- The plan after an event. -/
def Tracked.step (cfg : Config) (t : Tracked) : PlanEvent → Option Tracked
  | .execute now ans => some (executePlan cfg ans now t)
  | .finished id success => some (planFinished t id success)

/-! ## What holds -/

/-- The limits on the actions that are applying. -/
def Plan.WithinLimits (cfg : Config) (p : Plan) : Prop :=
  (∀ host, p.hostActions host ≤ cfg.maxActionsPerHost) ∧ p.clusterActions ≤ cfg.maxActionsPerCluster

/-- Some action is ready or applying. -/
def Plan.Pending (p : Plan) : Prop := ∃ a ∈ p.actions, a.state = .ready ∨ a.state = .applying

instance (p : Plan) : Decidable p.Pending :=
  inferInstanceAs (Decidable (∃ a ∈ p.actions, a.state = .ready ∨ a.state = .applying))

/-- How a plan ends: with an error, or a timeout if there is none. -/
def Plan.verdict (p : Plan) : PlanState :=
  if ∃ a ∈ p.actions, a.state = .error then .error
  else if ∃ a ∈ p.actions, a.state = .timeout then .timeout
  else .done

/-- The loop is over: no action is ready, or the first one that is ready has to wait. -/
def Plan.Held (cfg : Config) (p : Plan) : Prop :=
  ∀ i a, p.getNextAction = some i → p.actions[i]? = some a →
    cfg.maxActionsPerHost ≤ p.hostActions a.hostId ∨ cfg.maxActionsPerCluster ≤ p.clusterActions

/-! ## Counting -/

section Counting

variable {cfg : Config} {p : Plan} {i : ℕ} {a : PlanAction}

/-- The number of the entries of a kind after a change of one of them. -/
theorem length_filter_modify {α : Type*} (f : α → α) (q : α → Bool) (l : List α) (i : ℕ) (a : α)
    (ha : l[i]? = some a) :
    ((l.modify i f).filter q).length + (if q a then 1 else 0) =
      (l.filter q).length + if q (f a) then 1 else 0 := by
  induction l generalizing i with
  | nil => simp at ha
  | cons b l ih =>
    cases i with
    | zero =>
      obtain rfl : b = a := by simpa using ha
      rw [List.modify_zero_cons, List.filter_cons, List.filter_cons]
      cases q b
      · cases q (f b) <;> rfl
      · cases q (f b) <;> rfl
    | succ i =>
      have hrest := ih i (by simpa using ha)
      rw [List.modify_succ_cons, List.filter_cons, List.filter_cons]
      cases q b
      · exact hrest
      · simp only [if_true, List.length_cons]
        omega

theorem getNextAction_some (h : p.getNextAction = some i) :
    ∃ a, p.actions[i]? = some a ∧ a.state = .ready := by
  obtain ⟨hi, hready, -⟩ := List.findIdx?_eq_some_iff_getElem.mp h
  exact ⟨p.actions[i], List.getElem?_eq_getElem hi, of_decide_eq_true hready⟩

/-- The counters when an action that does not apply starts to. -/
theorem hostActions_modify_applying (ha : p.actions[i]? = some a) (hstate : a.state ≠ .applying) (time : ℤ)
    (host : ℤ) :
    Plan.hostActions { p with
      actions := p.actions.modify i fun a => { a with state := .applying, timestamp := time } } host =
      Function.update p.hostActions a.hostId (p.hostActions a.hostId + 1) host := by
  have hcount := length_filter_modify (fun a => { a with state := .applying, timestamp := time })
    (fun a => decide (a.state = .applying ∧ a.hostId = host)) p.actions i a ha
  simp only [hstate, false_and, decide_false, true_and, decide_eq_true_eq] at hcount
  by_cases hhost : host = a.hostId
  · rw [hhost, Function.update_self]
    rw [if_pos hhost.symm, hhost] at hcount
    exact hcount
  · rw [Function.update_of_ne hhost]
    rw [if_neg fun heq : a.hostId = host => hhost heq.symm] at hcount
    exact hcount

theorem clusterActions_modify_applying (ha : p.actions[i]? = some a) (hstate : a.state ≠ .applying)
    (time : ℤ) :
    Plan.clusterActions { p with
      actions := p.actions.modify i fun a => { a with state := .applying, timestamp := time } } =
      p.clusterActions + 1 := by
  have hcount := length_filter_modify (fun a => { a with state := .applying, timestamp := time })
    (fun a => decide (a.state = .applying)) p.actions i a ha
  simp only [hstate, decide_false] at hcount
  exact hcount

/-- A change of an action to a state other than `APPLYING` takes it from the counters. -/
theorem withinLimits_modify (h : p.WithinLimits cfg) (ha : p.actions[i]? = some a)
    {f : PlanAction → PlanAction} (hstate : (f a).state ≠ .applying) :
    Plan.WithinLimits cfg { p with actions := p.actions.modify i f } := by
  constructor
  · intro host
    have hcount := length_filter_modify f (fun a => decide (a.state = .applying ∧ a.hostId = host))
      p.actions i a ha
    simp only [hstate, false_and, decide_false, Bool.false_eq_true, if_false] at hcount
    refine le_trans ?_ (h.1 host)
    unfold Plan.hostActions
    dsimp only
    omega
  · have hcount := length_filter_modify f (fun a => decide (a.state = .applying)) p.actions i a ha
    simp only [hstate, decide_false, Bool.false_eq_true, if_false] at hcount
    refine le_trans ?_ h.2
    unfold Plan.clusterActions
    dsimp only
    omega

theorem hostActions_modify_error (ha : p.actions[i]? = some a) (hstate : a.state ≠ .applying) (time : ℤ)
    (host : ℤ) :
    Plan.hostActions { p with
      actions := p.actions.modify i fun a => { a with state := .error, timestamp := time } } host =
      p.hostActions host := by
  have hcount := length_filter_modify (fun a => { a with state := .error, timestamp := time })
    (fun a => decide (a.state = .applying ∧ a.hostId = host)) p.actions i a ha
  simp only [hstate, reduceCtorEq, false_and, decide_false] at hcount
  exact hcount

theorem clusterActions_modify_error (ha : p.actions[i]? = some a) (hstate : a.state ≠ .applying) (time : ℤ) :
    Plan.clusterActions { p with
      actions := p.actions.modify i fun a => { a with state := .error, timestamp := time } } =
      p.clusterActions := by
  have hcount := length_filter_modify (fun a => { a with state := .error, timestamp := time })
    (fun a => decide (a.state = .applying)) p.actions i a ha
  simp only [hstate, reduceCtorEq, decide_false] at hcount
  exact hcount

/-- Timeouts take actions from the counters. -/
theorem withinLimits_timeoutActions (h : p.WithinLimits cfg) (timeout now : ℤ) :
    (p.timeoutActions timeout now).WithinLimits cfg := by
  have hless : ∀ q : PlanAction → Prop, [DecidablePred q] →
      (∀ a, q { a with state := .timeout } → q a) →
      ((p.timeoutActions timeout now).actions.filter fun a => q a).length ≤
        (p.actions.filter fun a => q a).length := by
    intro q _ hq
    rw [Plan.timeoutActions, List.filter_map, List.length_map]
    refine (List.monotone_filter_right p.actions ?_).length_le
    intro a ha
    rw [Function.comp_apply, decide_eq_true_eq] at ha
    rw [decide_eq_true_eq]
    split_ifs at ha
    · exact hq a ha
    · exact ha
  constructor
  · intro host
    refine le_trans (hless (fun a => a.state = .applying ∧ a.hostId = host) ?_) (h.1 host)
    rintro a ⟨hstate, -⟩
    cases hstate
  · refine le_trans (hless (fun a => a.state = .applying) ?_) h.2
    intro a hstate
    cases hstate

theorem withinLimits_checkCompleted (h : p.WithinLimits cfg) : p.checkCompleted.WithinLimits cfg := by
  unfold Plan.WithinLimits Plan.hostActions Plan.clusterActions
  rw [actions_checkCompleted]
  exact h

end Counting

/-! ## One turn -/

section Turn

variable {cfg : Config} {ans : Answers} {x y : Execution}

/-- The actions that were started are not ready any more, and none was started twice. -/
def Fresh (started : List ℕ) (p : Plan) : Prop :=
  started.Nodup ∧ ∀ i ∈ started, ∃ a, p.actions[i]? = some a ∧ a.state ≠ .ready

/-- What the loop keeps: the counters are those of the plan. -/
structure Execution.Good (cfg : Config) (x : Execution) : Prop where
  hosts : x.hostActions = x.plan.hostActions
  cluster : x.clusterActions = x.plan.clusterActions
  limits : x.plan.WithinLimits cfg
  fresh : Fresh x.started x.plan

/-- **What a turn does**: it starts the first action that is ready, and below the limits. -/
theorem turn_cases (h : x.turn cfg ans = some y) :
    ∃ i a, x.plan.getNextAction = some i ∧ x.plan.actions[i]? = some a ∧ a.state = .ready ∧
      x.hostActions a.hostId < cfg.maxActionsPerHost ∧ x.clusterActions < cfg.maxActionsPerCluster ∧
      y.started = x.started ++ [i] ∧
      (ans.accepted i = true ∧
        y.plan = { x.plan with
          actions := x.plan.actions.modify i fun a => { a with state := .applying, timestamp := ans.time i } } ∧
        y.hostActions = Function.update x.hostActions a.hostId (x.hostActions a.hostId + 1) ∧
        y.clusterActions = x.clusterActions + 1 ∨
      ans.accepted i = false ∧
        y.plan = { x.plan with
          actions := x.plan.actions.modify i fun a => { a with state := .error, timestamp := ans.time i } } ∧
        y.hostActions = x.hostActions ∧ y.clusterActions = x.clusterActions) := by
  rw [Execution.turn] at h
  cases hnext : x.plan.getNextAction with
  | none =>
    rw [hnext] at h
    cases h
  | some i =>
    obtain ⟨a, ha, hready⟩ := getNextAction_some hnext
    rw [hnext] at h
    dsimp only at h
    rw [ha] at h
    dsimp only at h
    by_cases hlimit : cfg.maxActionsPerHost ≤ x.hostActions a.hostId ∨
        cfg.maxActionsPerCluster ≤ x.clusterActions
    · rw [if_pos hlimit] at h
      cases h
    rw [if_neg hlimit] at h
    rw [not_or, not_le, not_le] at hlimit
    refine ⟨i, a, rfl, ha, hready, hlimit.1, hlimit.2, ?_⟩
    by_cases haccepted : ans.accepted i = true
    · rw [if_pos haccepted] at h
      cases h
      exact ⟨rfl, Or.inl ⟨haccepted, rfl, rfl, rfl⟩⟩
    · rw [if_neg haccepted] at h
      rw [Bool.not_eq_true] at haccepted
      cases h
      exact ⟨rfl, Or.inr ⟨haccepted, rfl, rfl, rfl⟩⟩

theorem fresh_modify {started : List ℕ} {p : Plan} (h : Fresh started p) (i : ℕ)
    {f : PlanAction → PlanAction} (hf : ∀ a, (f a).state ≠ .ready) :
    Fresh started { p with actions := p.actions.modify i f } := by
  refine ⟨h.1, ?_⟩
  intro j hj
  obtain ⟨a, ha, hstate⟩ := h.2 j hj
  dsimp only
  rw [List.getElem?_modify, ha]
  by_cases hij : i = j
  · exact ⟨f a, by simp [hij], hf a⟩
  · exact ⟨a, by simp [hij], hstate⟩

/-- One more action that was ready and is not any more. -/
theorem fresh_started {started : List ℕ} {p : Plan} (h : Fresh started p) {i : ℕ} {a : PlanAction}
    (ha : p.actions[i]? = some a) (hready : a.state = .ready) {f : PlanAction → PlanAction}
    (hf : ∀ a, (f a).state ≠ .ready) :
    Fresh (started ++ [i]) { p with actions := p.actions.modify i f } := by
  have hkept := fresh_modify h i hf
  refine ⟨?_, ?_⟩
  · rw [List.nodup_append]
    refine ⟨h.1, List.nodup_singleton i, ?_⟩
    rintro j hj k hk rfl
    obtain ⟨b, hb, hstate⟩ := h.2 j hj
    rw [List.mem_singleton.mp hk, ha] at hb
    exact hstate (Option.some.inj hb ▸ hready)
  · intro j hj
    rcases List.mem_append.mp hj with hj | hj
    · exact hkept.2 j hj
    · rw [List.mem_singleton.mp hj]
      refine ⟨f a, ?_, hf a⟩
      dsimp only
      rw [List.getElem?_modify, ha]
      simp

/-- **A turn keeps the counters and the limits**, and starts an action that was not started before. -/
theorem Execution.Good.turn (h : x.Good cfg) (hturn : x.turn cfg ans = some y) : y.Good cfg := by
  obtain ⟨i, a, -, ha, hready, hhost, hcluster, hstarted, hcases⟩ := turn_cases hturn
  have hstate : a.state ≠ .applying := by
    rw [hready]
    decide
  rw [h.hosts] at hhost
  rw [h.cluster] at hcluster
  rcases hcases with ⟨-, hplan, hhosts, hcount⟩ | ⟨-, hplan, hhosts, hcount⟩
  · have hhosts' := hostActions_modify_applying ha hstate (ans.time i)
    have hcluster' := clusterActions_modify_applying ha hstate (ans.time i)
    refine ⟨?_, ?_, ⟨?_, ?_⟩, ?_⟩
    · rw [hhosts, hplan, h.hosts]
      exact funext fun host => (hhosts' host).symm
    · rw [hcount, hplan, h.cluster, hcluster']
    · intro host
      rw [hplan, hhosts']
      by_cases heq : host = a.hostId
      · rw [heq, Function.update_self]
        exact hhost
      · rw [Function.update_of_ne heq]
        exact h.limits.1 host
    · rw [hplan, hcluster']
      exact hcluster
    · rw [hstarted, hplan]
      exact fresh_started h.fresh ha hready fun a => by simp
  · refine ⟨?_, ?_, ?_, ?_⟩
    · rw [hhosts, hplan, h.hosts]
      exact funext fun host => (hostActions_modify_error ha hstate (ans.time i) host).symm
    · rw [hcount, hplan, h.cluster, clusterActions_modify_error ha hstate]
    · rw [hplan]
      exact withinLimits_modify h.limits ha (by simp)
    · rw [hstarted, hplan]
      exact fresh_started h.fresh ha hready fun a => by simp

theorem Execution.Good.turns (h : x.Good cfg) (n : ℕ) : (x.turns cfg ans n).Good cfg := by
  induction n generalizing x with
  | zero => exact h
  | succ n ih =>
    rw [Execution.turns]
    split
    · exact h
    · rename_i y hturn
      exact ih (h.turn hturn)

/-- The number of the actions that are ready. -/
def Plan.readyActions (p : Plan) : ℕ := (p.actions.filter fun a => a.state = .ready).length

/-- A turn starts one of the actions that are ready. -/
theorem readyActions_turn (hturn : x.turn cfg ans = some y) :
    y.plan.readyActions + 1 = x.plan.readyActions := by
  obtain ⟨i, a, -, ha, hready, -, -, -, hcases⟩ := turn_cases hturn
  have hone : ∀ f : PlanAction → PlanAction, (f a).state ≠ .ready →
      Plan.readyActions { x.plan with actions := x.plan.actions.modify i f } + 1 =
        x.plan.readyActions := by
    intro f hf
    have hcount := length_filter_modify f (fun a => decide (a.state = .ready)) x.plan.actions i a ha
    simp only [hf, hready, decide_true, decide_false, if_true, Bool.false_eq_true, if_false] at hcount
    exact hcount
  rcases hcases with ⟨-, hplan, -, -⟩ | ⟨-, hplan, -, -⟩
  · rw [hplan]
    exact hone _ (by simp)
  · rw [hplan]
    exact hone _ (by simp)

/-- **The loop ends**: there are not more turns than actions that are ready. -/
theorem turn_turns (n : ℕ) (hn : x.plan.readyActions ≤ n) : (x.turns cfg ans n).turn cfg ans = none := by
  induction n generalizing x with
  | zero =>
    rw [Execution.turns]
    cases hturn : x.turn cfg ans with
    | none => rfl
    | some y =>
      have hless := readyActions_turn hturn
      omega
  | succ n ih =>
    rw [Execution.turns]
    split
    · assumption
    · rename_i y hturn
      have hless := readyActions_turn hturn
      exact ih (by omega)

/-- Where the loop ends, the first action that is ready has to wait. -/
theorem held_of_turn (h : x.Good cfg) (hturn : x.turn cfg ans = none) : x.plan.Held cfg := by
  intro i a hnext ha
  rw [Execution.turn, hnext] at hturn
  dsimp only at hturn
  rw [ha] at hturn
  dsimp only at hturn
  by_cases hlimit : cfg.maxActionsPerHost ≤ x.hostActions a.hostId ∨
      cfg.maxActionsPerCluster ≤ x.clusterActions
  · rw [← h.hosts, ← h.cluster]
    exact hlimit
  · rw [if_neg hlimit] at hturn
    split_ifs at hturn

/-- The loop leaves the state of the plan. -/
theorem state_turns (n : ℕ) : (x.turns cfg ans n).plan.state = x.plan.state := by
  induction n generalizing x with
  | zero => rfl
  | succ n ih =>
    rw [Execution.turns]
    split
    · rfl
    · rename_i y hturn
      obtain ⟨i, a, -, -, -, -, -, -, hcases⟩ := turn_cases hturn
      rw [ih]
      rcases hcases with ⟨-, hplan, -, -⟩ | ⟨-, hplan, -, -⟩
      · rw [hplan]
      · rw [hplan]

end Turn

/-! ## Completion -/

section Completion

variable {cfg : Config} {p : Plan} {started : List ℕ}

theorem fresh_timeoutActions (h : Fresh started p) (timeout now : ℤ) :
    Fresh started (p.timeoutActions timeout now) := by
  refine ⟨h.1, ?_⟩
  intro i hi
  obtain ⟨a, ha, hstate⟩ := h.2 i hi
  rw [Plan.timeoutActions]
  dsimp only
  rw [List.getElem?_map, ha]
  refine ⟨_, rfl, ?_⟩
  dsimp only
  split_ifs
  · intro h
    cases h
  · exact hstate

theorem fresh_checkCompleted (h : Fresh started p) : Fresh started p.checkCompleted := by
  unfold Fresh
  rw [actions_checkCompleted]
  exact h

theorem completedState_eq (s : PlanState) (as : List PlanAction) :
    Plan.completedState s as =
      if s = .error ∨ ∃ a ∈ as, a.state = .error then .error
      else if ∃ a ∈ as, a.state = .timeout then .timeout
      else s := by
  induction as generalizing s with
  | nil =>
    rw [Plan.completedState]
    by_cases hs : s = .error
    · rw [if_pos (Or.inl hs), hs]
    · rw [if_neg (by simpa using hs), if_neg (by simp)]
  | cons a as ih =>
    simp only [List.exists_mem_cons_iff]
    by_cases hs : s = .error
    · rw [hs, Plan.completedState, ih, if_pos (Or.inl rfl), if_pos (Or.inl rfl)]
    · rw [Plan.completedState.eq_3 _ _ _ hs]
      by_cases herror : a.state = .error
      · rw [if_pos herror, ih, if_pos (Or.inl rfl), if_pos (Or.inr (Or.inl herror))]
      · rw [if_neg herror]
        by_cases htimeout : a.state = .timeout
        · simp [htimeout, ih, hs]
        · simp [htimeout, herror, ih, hs]

/-- The plan is applying and some action is ready or applying, or it has ended as its actions did. -/
def Plan.Settled (p : Plan) : Prop := p.state = .applying ∧ p.Pending ∨ p.state = p.verdict ∧ ¬ p.Pending

/-- **A plan that is checked is settled.** -/
theorem settled_checkCompleted (h : p.state = .applying ∨ ¬ p.Pending) : p.checkCompleted.Settled := by
  have hany : (p.actions.any fun a => a.state = .ready ∨ a.state = .applying) = true ↔ p.Pending := by
    rw [List.any_eq_true]
    simp only [decide_eq_true_eq]
    exact Iff.rfl
  rw [Plan.checkCompleted]
  by_cases hpending : p.Pending
  · rw [if_pos (hany.mpr hpending)]
    exact Or.inl ⟨h.resolve_right (not_not.mpr hpending), hpending⟩
  · rw [if_neg (mt hany.mp hpending)]
    refine Or.inr ⟨?_, hpending⟩
    rw [Plan.verdict]
    dsimp only
    rw [completedState_eq]
    simp only [reduceCtorEq, false_or]

theorem Plan.verdict_ne_applying (p : Plan) : p.verdict ≠ .applying := by
  unfold Plan.verdict
  split_ifs <;> decide

theorem Plan.Settled.iff_pending (h : p.Settled) :
    (p.state = .applying ↔ p.Pending) ∧ (p.state ≠ .applying → p.state = p.verdict) := by
  rcases h with ⟨hstate, hpending⟩ | ⟨hstate, hpending⟩
  · exact ⟨iff_of_true hstate hpending, fun hne => absurd hstate hne⟩
  · refine ⟨iff_of_false ?_ hpending, fun _ => hstate⟩
    rw [hstate]
    exact p.verdict_ne_applying

/-- What a report does to the actions: it ends one of them. -/
theorem actionFinished_cases (p : Plan) (id : ℤ) (st : PlanState) :
    p.actionFinished id st = (p, false) ∨
      ∃ i a, p.actions[i]? = some a ∧ a.Waits ∧
        p.actionFinished id st =
          ({ p with actions := p.actions.modify i fun a => { a with state := st } }, true) := by
  rw [Plan.actionFinished]
  split
  · rename_i i hi
    obtain ⟨hlt, hwaits, -⟩ := List.findIdx?_eq_some_iff_getElem.mp hi
    rw [Bool.and_eq_true, decide_eq_true_eq, decide_eq_true_eq] at hwaits
    exact Or.inr ⟨i, p.actions[i], List.getElem?_eq_getElem hlt, hwaits.2, rfl⟩
  · exact Or.inl rfl

/-- An action that ends does not make a plan pending. -/
theorem not_pending_modify (h : ¬ p.Pending) (i : ℕ) {st : PlanState} (hready : st ≠ .ready)
    (happlying : st ≠ .applying) :
    ¬ Plan.Pending { p with actions := p.actions.modify i fun a => { a with state := st } } := by
  rintro ⟨a, ha, hstate⟩
  obtain ⟨j, hj⟩ := List.mem_iff_getElem?.mp ha
  dsimp only at hj
  rw [List.getElem?_modify] at hj
  cases hget : p.actions[j]? with
  | none =>
    rw [hget] at hj
    cases hj
  | some b =>
    rw [hget] at hj
    obtain rfl := Option.some.inj hj
    dsimp only at hstate
    split_ifs at hstate
    · rcases hstate with hstate | hstate
      · exact hready hstate
      · exact happlying hstate
    · exact h ⟨b, List.mem_of_getElem? hget, hstate⟩

end Completion

/-! ## Steps of the manager -/

section Manager

variable {cfg : Config} {ans : Answers} {s : State} {cid : ℤ} {x y : Execution}

/-- What `startAction` leaves of the plan and of the phase. -/
theorem startAction_eq {p : Plan} {hosts : ℤ → ℕ} {cluster i : ℕ} {a : PlanAction}
    (hplan : s.plans cid = some p) (hphase : s.phase cid = .loop hosts cluster)
    (hnext : p.getNextAction = some i) (ha : p.actions[i]? = some a)
    (hlimit : ¬ (cfg.maxActionsPerHost ≤ hosts a.hostId ∨ cfg.maxActionsPerCluster ≤ cluster))
    (now : ℤ) (accepted : Bool) :
    ∃ s', step cfg s (.startAction cid now accepted) = some s' ∧
      if accepted then
        s'.plans cid = some { p with actions := p.actions.modify i fun a => { a with timestamp := now } } ∧
          s'.phase cid = .starting hosts cluster i s.started.length
      else
        s'.plans cid = some { p with
          actions := p.actions.modify i fun a => { a with state := .error, timestamp := now } } ∧
          s'.phase cid = .loop hosts cluster := by
  have hstart : step cfg s (.startAction cid now accepted) = startAction cfg s cid now accepted := rfl
  rw [hstart, startAction, hplan, hphase]
  dsimp only
  rw [hnext]
  dsimp only
  rw [ha]
  dsimp only
  rw [if_neg hlimit]
  cases accepted with
  | true => exact ⟨_, rfl, Function.update_self _ _ _, Function.update_self _ _ _⟩
  | false => exact ⟨_, rfl, Function.update_self _ _ _, hphase⟩

/-- What `writeRecord` leaves of the plan and of the phase. -/
theorem writeRecord_eq {p : Plan} {hosts : ℤ → ℕ} {cluster i op : ℕ} {a : PlanAction}
    (hplan : s.plans cid = some p) (hphase : s.phase cid = .starting hosts cluster i op)
    (ha : p.actions[i]? = some a) :
    ∃ s', step cfg s (.writeRecord cid) = some s' ∧
      s'.plans cid = some { p with actions := p.actions.modify i fun a => { a with state := .applying } } ∧
      s'.phase cid = .loop (Function.update hosts a.hostId (hosts a.hostId + 1)) (cluster + 1) := by
  have hwrite : step cfg s (.writeRecord cid) = writeRecord s cid := rfl
  rw [hwrite, writeRecord, hplan, hphase]
  dsimp only
  rw [ha]
  exact ⟨_, rfl, Function.update_self _ _ _, Function.update_self _ _ _⟩

/-- A turn of the loop is a step of the manager, or two when the request is accepted. -/
theorem run_turn (hplan : s.plans cid = some x.plan)
    (hphase : s.phase cid = .loop x.hostActions x.clusterActions) (hturn : x.turn cfg ans = some y) :
    ∃ s', Run (step cfg) s s' ∧ s'.plans cid = some y.plan ∧
      s'.phase cid = .loop y.hostActions y.clusterActions := by
  obtain ⟨i, a, hnext, ha, -, hhost, hcluster, -, hcases⟩ := turn_cases hturn
  have hlimit : ¬ (cfg.maxActionsPerHost ≤ x.hostActions a.hostId ∨
      cfg.maxActionsPerCluster ≤ x.clusterActions) := by
    omega
  obtain ⟨s₁, hstep, hstarted⟩ := startAction_eq hplan hphase hnext ha hlimit (ans.time i) (ans.accepted i)
  rcases hcases with ⟨haccepted, hplan', hhosts, hcount⟩ | ⟨hrefused, hplan', hhosts, hcount⟩
  · rw [haccepted, if_pos rfl] at hstarted
    obtain ⟨hplan₁, hphase₁⟩ := hstarted
    have ha₁ : (x.plan.actions.modify i fun a => { a with timestamp := ans.time i })[i]? =
        some { a with timestamp := ans.time i } := by
      rw [List.getElem?_modify, ha]
      simp
    obtain ⟨s₂, hwrite, hplan₂, hphase₂⟩ := writeRecord_eq hplan₁ hphase₁ ha₁
    refine ⟨s₂, Reach.tail (Reach.tail Reach.refl trivial hstep) trivial hwrite, ?_, ?_⟩
    · rw [hplan₂, hplan']
      dsimp only
      rw [List.modify_modify_eq]
      rfl
    · rw [hphase₂, hhosts, hcount]
  · rw [hrefused, if_neg Bool.false_ne_true] at hstarted
    refine ⟨s₁, Reach.tail Reach.refl trivial hstep, ?_, ?_⟩
    · rw [hstarted.1, hplan']
    · rw [hstarted.2, hhosts, hcount]

theorem run_turns (n : ℕ) (hplan : s.plans cid = some x.plan)
    (hphase : s.phase cid = .loop x.hostActions x.clusterActions) :
    ∃ s', Run (step cfg) s s' ∧ s'.plans cid = some (x.turns cfg ans n).plan ∧
      s'.phase cid = .loop (x.turns cfg ans n).hostActions (x.turns cfg ans n).clusterActions := by
  induction n generalizing x s with
  | zero => exact ⟨s, Reach.refl, hplan, hphase⟩
  | succ n ih =>
    rw [Execution.turns]
    split
    · exact ⟨s, Reach.refl, hplan, hphase⟩
    · rename_i y hturn
      obtain ⟨s₁, hrun, hplan₁, hphase₁⟩ := run_turn hplan hphase hturn
      obtain ⟨s₂, hrun', hplan₂, hphase₂⟩ := ih hplan₁ hphase₁
      exact ⟨s₂, hrun.trans hrun', hplan₂, hphase₂⟩

/-- **An execution is a run of the manager**, and the plan is not locked when it ends. -/
theorem run_executePlan {p : Plan} (hplan : s.plans cid = some p) (hidle : s.phase cid = .idle) (now : ℤ)
    (started : List ℕ) :
    ∃ s', Run (step cfg) s s' ∧ s'.plans cid = some (executePlan cfg ans now ⟨p, started⟩).plan ∧
      s'.phase cid = .idle := by
  by_cases happly : p.state = .applying
  · have hunlocked : unlocked s cid = true := by
      rw [unlocked, hidle]
    have hbegin : step cfg s (.beginExecution cid now) = some (beginExecution cfg s cid now) := if_pos hunlocked
    rw [beginExecution, hplan] at hbegin
    dsimp only at hbegin
    rw [if_pos happly] at hbegin
    obtain ⟨s₁, hrun, hplan₁, hphase₁⟩ := @run_turns cfg ans
      ((s.setPlan cid (some (p.timeoutActions cfg.actionTimeout now))).setPhase cid
        (.loop (p.timeoutActions cfg.actionTimeout now).hostActions
          (p.timeoutActions cfg.actionTimeout now).clusterActions))
      cid (Execution.start cfg now p started) p.actions.length
      (Function.update_self _ _ _) (Function.update_self _ _ _)
    have hend : step cfg s₁ (.endExecution cid) = endExecution s₁ cid := rfl
    rw [endExecution, hplan₁, hphase₁] at hend
    refine ⟨_, Reach.tail ((Reach.tail Reach.refl trivial hbegin).trans hrun) trivial hend, ?_,
      Function.update_self _ _ _⟩
    rw [executePlan, if_pos happly]
    exact Function.update_self _ _ _
  · refine ⟨s, Reach.refl, ?_, hidle⟩
    rw [executePlan, if_neg happly, hplan]

end Manager

/-! ## Runs -/

section Runs

variable {cfg : Config} {t : Tracked} {ans : Answers} {now : ℤ}

/-- What every event keeps. -/
structure Tracked.Good (cfg : Config) (t : Tracked) : Prop where
  limits : t.plan.WithinLimits cfg
  fresh : Fresh t.started t.plan
  settles : t.plan.state = .applying ∨ t.plan.Settled

/-- The loop begins with the counters of the plan. -/
theorem Tracked.Good.start (h : t.Good cfg) (now : ℤ) :
    (Execution.start cfg now t.plan t.started).Good cfg :=
  ⟨rfl, rfl, withinLimits_timeoutActions h.limits _ _, fresh_timeoutActions h.fresh _ _⟩

/-- **The loop ends with no action that could be started next.** -/
theorem Tracked.Good.held (h : t.Good cfg) : (executed cfg ans now t).plan.Held cfg := by
  refine held_of_turn ((h.start now).turns _) (turn_turns _ ?_)
  refine (List.length_filter_le _ _).trans ?_
  rw [Execution.start, Plan.timeoutActions, List.length_map]

theorem Tracked.Good.executePlan (h : t.Good cfg) :
    (executePlan cfg ans now t).Good cfg ∧ (executePlan cfg ans now t).plan.Settled := by
  rw [PlanManager.executePlan]
  by_cases happly : t.plan.state = .applying
  · rw [if_pos happly]
    have hloop : (executed cfg ans now t).Good cfg := (h.start now).turns _
    have hsettled : (executed cfg ans now t).plan.checkCompleted.Settled := by
      refine settled_checkCompleted (Or.inl ?_)
      rw [executed, state_turns]
      exact happly
    exact ⟨⟨withinLimits_checkCompleted hloop.limits, fresh_checkCompleted hloop.fresh, Or.inr hsettled⟩,
      hsettled⟩
  · rw [if_neg happly]
    exact ⟨h, h.settles.resolve_left happly⟩

theorem Tracked.Good.planFinished (h : t.Good cfg) (id : ℤ) (success : Bool) :
    (planFinished t id success).Good cfg ∧
      (t.plan.Settled → (PlanManager.planFinished t id success).plan.Settled) := by
  have hready : (if success then PlanState.done else .error) ≠ .ready := by
    cases success <;> decide
  have happlying : (if success then PlanState.done else .error) ≠ .applying := by
    cases success <;> decide
  rw [PlanManager.planFinished]
  rcases actionFinished_cases t.plan id (if success then .done else .error) with hsame | ⟨i, a, ha, -, hnew⟩
  · rw [hsame]
    exact ⟨h, fun hsettled => hsettled⟩
  · rw [hnew]
    have hsettles : Plan.Settled (Plan.checkCompleted { t.plan with
        actions := t.plan.actions.modify i fun a =>
          { a with state := if success then .done else .error } }) := by
      refine settled_checkCompleted ?_
      rcases h.settles with hstate | ⟨hstate, -⟩ | ⟨-, hpending⟩
      · exact Or.inl hstate
      · exact Or.inl hstate
      · exact Or.inr (not_pending_modify hpending i hready happlying)
    refine ⟨⟨?_, ?_, Or.inr hsettles⟩, fun _ => hsettles⟩
    · exact withinLimits_checkCompleted (withinLimits_modify h.limits ha happlying)
    · exact fresh_checkCompleted (fresh_modify h.fresh i fun a => hready)

/-- The invariant of a run; a plan that was pending, or that was executed, is settled. -/
theorem good_of_run {p : Plan} (happly : p.state = .applying) (hlimits : p.WithinLimits cfg)
    (es : List PlanEvent) {t : Tracked} (hrun : runEvents (Tracked.step cfg) ⟨p, []⟩ es = some t) :
    t.Good cfg ∧ ((p.Pending ∨ ∃ now ans, .execute now ans ∈ es) → t.plan.Settled) := by
  induction es using List.reverseRecOn generalizing t with
  | nil =>
    obtain rfl := Option.some.inj hrun
    refine ⟨⟨hlimits, ⟨List.nodup_nil, by simp⟩, Or.inl happly⟩, ?_⟩
    rintro (hpending | ⟨now, ans, hmem⟩)
    · exact Or.inl ⟨happly, hpending⟩
    · exact absurd hmem List.not_mem_nil
  | append_singleton es e ih =>
    obtain ⟨u, hu, hstep⟩ := runEvents_concat es e hrun
    obtain ⟨hgood, hsettled⟩ := ih hu
    cases e with
    | execute now ans =>
      obtain rfl := Option.some.inj hstep
      exact ⟨hgood.executePlan.1, fun _ => hgood.executePlan.2⟩
    | finished id success =>
      obtain rfl := Option.some.inj hstep
      obtain ⟨hgood', hsettled'⟩ := hgood.planFinished id success
      refine ⟨hgood', fun hstart => hsettled' (hsettled ?_)⟩
      rcases hstart with hpending | ⟨now, ans, hmem⟩
      · exact Or.inl hpending
      · rcases List.mem_append.mp hmem with hmem | hmem
        · exact Or.inr ⟨now, ans, hmem⟩
        · cases List.mem_singleton.mp hmem

/-- **The execution of a plan.**  A plan starts within the limits.  After any executions, reports and
timeouts, and after any number of turns of an execution, the actions that are applying are within the
limits; no action was started twice; the plan is applying exactly when an action is ready or applying, and
otherwise it ended with an error, a timeout or neither, as its actions did; and an execution stops when no
action is ready, or when the first one that is ready has a host or a cluster at its limit. -/
theorem limits_of_run (cfg : Config) {p : Plan} (happly : p.state = .applying) (hlimits : p.WithinLimits cfg)
    (es : List PlanEvent) {t : Tracked} (hrun : runEvents (Tracked.step cfg) ⟨p, []⟩ es = some t) :
    (t.plan.WithinLimits cfg ∧
      ∀ now ans n, ((Execution.start cfg now t.plan t.started).turns cfg ans n).plan.WithinLimits cfg) ∧
    t.started.Nodup ∧
    ((p.Pending ∨ ∃ now ans, .execute now ans ∈ es) →
      (t.plan.state = .applying ↔ t.plan.Pending) ∧ (t.plan.state ≠ .applying → t.plan.state = t.plan.verdict)) ∧
    ∀ now ans, (executed cfg ans now t).plan.Held cfg := by
  obtain ⟨hgood, hsettled⟩ := good_of_run happly hlimits es hrun
  refine ⟨⟨hgood.limits, fun now ans n => ((hgood.start now).turns n).limits⟩, hgood.fresh.1, ?_,
    fun now ans => hgood.held⟩
  exact fun hstart => (hsettled hstart).iff_pending

/-! ### A host at its limit -/

/-- Two actions for a host and one for another. -/
def threeActions : Plan :=
  ⟨.applying, [⟨0, 10, 1, .ready, 0⟩, ⟨1, 11, 1, .ready, 0⟩, ⟨2, 12, 2, .ready, 0⟩]⟩

/-- One action for each host. -/
def oneEach : Config := ⟨1, 30, 300⟩

/-- Every request is accepted. -/
def allAccepted : Answers := ⟨fun _ => true, fun _ => 0⟩

theorem limits_threeActions :
    ∃ t, runEvents (Tracked.step oneEach) ⟨threeActions, []⟩ [.execute 0 allAccepted, .finished 0 true] = some t ∧
      t.plan.WithinLimits oneEach ∧ t.started.Nodup ∧ (t.plan.state = .applying ↔ t.plan.Pending) := by
  have hlimits : threeActions.WithinLimits oneEach :=
    ⟨fun host => by simp [threeActions, Plan.hostActions], by decide⟩
  obtain ⟨⟨h, -⟩, hstarted, hstate, -⟩ := limits_of_run oneEach rfl hlimits
    [.execute 0 allAccepted, .finished 0 true] rfl
  exact ⟨_, rfl, h, hstarted, (hstate (Or.inl (by decide))).1⟩

/-- An execution of the plan by the manager. -/
theorem run_executePlan_threeActions :
    ∃ s', Run (step oneEach) (init.setPlan 0 (some threeActions)) s' ∧
      s'.plans 0 = some (executePlan oneEach allAccepted 0 ⟨threeActions, []⟩).plan ∧
      s'.phase 0 = .idle :=
  run_executePlan rfl rfl 0 []

/-- **An action waits behind another one**: the first host is at its limit, so the action for the second
host is not started, although no action is applying there. -/
theorem not_started_behind :
    ∃ t, Tracked.step oneEach ⟨threeActions, []⟩ (.execute 0 allAccepted) = some t ∧ t.started = [0] ∧
      t.plan.state = .applying ∧ (∃ a ∈ t.plan.actions, a.state = .ready ∧ a.hostId = 2) ∧
      t.plan.hostActions 2 < oneEach.maxActionsPerHost ∧
      t.plan.clusterActions < oneEach.maxActionsPerCluster :=
  ⟨_, rfl, by decide, by decide, by decide, by decide, by decide⟩

end Runs

end PlanManager
