/-
# The plan manager (`src/schedm/PlanManager.cc`, `src/schedm/Plan.cc`)

The plan manager carries out the plans of the schedulers: the placement plan (`-1`) and one plan for each
cluster.  A plan is a list of actions on virtual machines.  The manager starts the actions of a plan that
is applying, writes the plan and the action into the history record of the virtual machine, and waits for
the report of the operation.  A report has only the two numbers of the record that the virtual machine has
when its operation ends.

Conventions of the embedding:

* A plan is locked while the manager goes through its actions (`Phase`).  A report is first made from the
  history record and then handed to the plan, so other steps may come between; `inbox` has the reports
  that are on their way.
* Whether the request of an action is accepted, and when an operation of a virtual machine ends, is up to
  the other components: these are choices of the events.  What only goes into the request (the operation,
  the datastore and the networks of an action) is left out.
* `gen`, `started`, `writtenFor` and `ended` are not in the program.  They say how often a plan was
  replaced, which operations the manager has started and for which action, for which of them a history
  record was written, and which of them a report is about.
-/
import OpenNebula.Transition

namespace PlanManager

/-! ## Plans -/

/-- `PlanState`; a plan that is read may have another number. -/
inductive PlanState
  | none
  | ready
  | applying
  | done
  | error
  | timeout
  | unknown (n : ℤ)
  deriving DecidableEq

/-- `PlanAction`. -/
structure PlanAction where
  id : ℤ
  vmId : ℤ
  hostId : ℤ
  state : PlanState
  timestamp : ℤ
  deriving DecidableEq

/-- The action waits for the report of its operation. -/
def PlanAction.Waits (a : PlanAction) : Prop := a.state = .applying ∨ a.state = .timeout

instance (a : PlanAction) : Decidable a.Waits := inferInstanceAs (Decidable (_ ∨ _))

/-- `Plan`; its number is the one it is found under. -/
structure Plan where
  state : PlanState
  actions : List PlanAction
  deriving DecidableEq

namespace Plan

/-- `Plan::get_next_action`: the position of the first action that is ready. -/
def getNextAction (p : Plan) : Option ℕ := p.actions.findIdx? fun a => a.state = .ready

/-- `Plan::action_finished`: the first action of the number that waits. -/
def actionFinished (p : Plan) (id : ℤ) (state : PlanState) : Plan × Bool :=
  match p.actions.findIdx? fun a => decide (a.id = id) && decide a.Waits with
  | some i => ({ p with actions := p.actions.modify i fun a => { a with state := state } }, true)
  | Option.none => (p, false)

/-- The state that `check_completed` gives a plan without actions that are ready or applying: an error
is kept, and any other action after a timeout does not undo it. -/
def completedState : PlanState → List PlanAction → PlanState
  | s, [] => s
  | .error, _ :: as => completedState .error as
  | s, a :: as =>
    if a.state = .error then completedState .error as
    else if a.state = .timeout then completedState .timeout as
    else completedState s as

/-- `Plan::check_completed`. -/
def checkCompleted (p : Plan) : Plan :=
  if p.actions.any fun a => a.state = .ready ∨ a.state = .applying then p
  else { p with state := completedState .done p.actions }

/-- `Plan::timeout_actions` at a time. -/
def timeoutActions (p : Plan) (timeout now : ℤ) : Plan :=
  { p with
    actions := p.actions.map fun a =>
      if a.state = .applying ∧ a.timestamp + timeout < now then { a with state := .timeout } else a }

/-- `Plan::count_actions`: the actions that are applying, for each host. -/
def hostActions (p : Plan) (host : ℤ) : ℕ :=
  (p.actions.filter fun a => a.state = .applying ∧ a.hostId = host).length

/-- `Plan::count_actions`: all the actions that are applying. -/
def clusterActions (p : Plan) : ℕ := (p.actions.filter fun a => a.state = .applying).length

end Plan

/-! ## The system -/

/-- The operation that the manager has started for an action of a plan. -/
structure Operation where
  planId : ℤ
  gen : ℕ
  actionId : ℤ
  vm : ℤ
  deriving DecidableEq

/-- What a history record has of a plan. -/
structure Record where
  planId : ℤ
  actionId : ℤ
  writtenFor : Option ℕ
  deriving DecidableEq

/-- A new history record names no plan. -/
def Record.new : Record := ⟨-2, -1, Option.none⟩

/-- The last history record of a virtual machine and the one before. -/
structure History where
  current : Option Record
  previous : Option Record
  deriving DecidableEq

/-- A report on its way to `action_finished`. -/
structure Report where
  planId : ℤ
  actionId : ℤ
  state : PlanState
  writtenFor : Option ℕ
  ended : Option ℕ
  deriving DecidableEq

/-- Where `execute_plan` is for a plan. -/
inductive Phase
  | idle
  /-- In the loop over the actions, with the counters. -/
  | loop (hostActions : ℤ → ℕ) (clusterActions : ℕ)
  /-- The request of the action at a position was accepted; the record is not yet written. -/
  | starting (hostActions : ℤ → ℕ) (clusterActions : ℕ) (i : ℕ) (op : ℕ)

/-- The options of the manager. -/
structure Config where
  maxActionsPerHost : ℕ
  maxActionsPerCluster : ℕ
  actionTimeout : ℤ

structure State where
  plans : ℤ → Option Plan
  phase : ℤ → Phase
  vms : ℤ → History
  inbox : List Report
  gen : ℤ → ℕ
  started : List Operation

/-- `Cluster::DrsAutomation`. -/
inductive DrsAutomation
  | manual
  | partly
  | full
  deriving DecidableEq

/-- What can happen. -/
inductive Event
  /-- `add_plan` with a plan that could be read, and the cluster when it exists. -/
  | addPlan (cid : ℤ) (actions : List PlanAction) (cluster : Option DrsAutomation)
  | startPlan (cid : ℤ)
  /-- `ClusterAPI::PlanDelete`. -/
  | deletePlan (cid : ℤ)
  /-- A cluster is created or deleted, and its plan with it. -/
  | insertPlan (cid : ℤ)
  | dropPlan (cid : ℤ)
  /-- The parts of `execute_plan`. -/
  | beginExecution (cid now : ℤ)
  | startAction (cid now : ℤ) (accepted : Bool)
  | writeRecord (cid : ℤ)
  | endExecution (cid : ℤ)
  /-- Other components give a virtual machine a new history record: an empty one, a copy of the last one,
  or a copy of the one before. -/
  | addHistory (vm : ℤ)
  | cpHistory (vm : ℤ)
  | cpPreviousHistory (vm : ℤ)
  /-- An operation of a virtual machine ends; `ended` is `none` when the manager has not started it. -/
  | report (vm : ℤ) (success : Bool) (ended : Option ℕ)
  /-- A report gets to its plan. -/
  | deliver (i : ℕ)

namespace State

/-- Another plan under a number. -/
def setPlan (s : State) (cid : ℤ) (p : Option Plan) : State :=
  { s with plans := Function.update s.plans cid p }

/-- The actions under a number are replaced. -/
def replacePlan (s : State) (cid : ℤ) (p : Option Plan) : State :=
  { s.setPlan cid p with gen := Function.update s.gen cid (s.gen cid + 1) }

def setPhase (s : State) (cid : ℤ) (ph : Phase) : State :=
  { s with phase := Function.update s.phase cid ph }

def setHistory (s : State) (vm : ℤ) (h : History) : State :=
  { s with vms := Function.update s.vms vm h }

end State

/-- `start_check_plan`: these states cannot be started. -/
def startRefused (st : PlanState) : Bool :=
  st = .none || st = .applying || st = .done || st = .error

/-- `PlanManager::add_plan`, when the plan is not locked. -/
def addPlan (s : State) (cid : ℤ) (actions : List PlanAction) (cluster : Option DrsAutomation) :
    State :=
  if actions.isEmpty then s
  else match s.plans cid with
    | Option.none => s
    | some cplan =>
      if cid = -1 then
        if cplan.state = .applying then s else s.replacePlan cid (some ⟨.applying, actions⟩)
      else match cluster with
        | Option.none => s
        | some automation =>
          if cplan.state = .applying then s
          else if automation = .full then s.replacePlan cid (some ⟨.applying, actions⟩)
          else s.replacePlan cid (some ⟨.ready, actions⟩)

/-- `PlanManager::start_plan`. -/
def startPlan (s : State) (cid : ℤ) : State :=
  match s.plans cid with
  | Option.none => s
  | some p => if startRefused p.state then s else s.setPlan cid (some { p with state := .applying })

/-- `ClusterAPI::PlanDelete`. -/
def deletePlan (s : State) (cid : ℤ) : State :=
  match s.plans cid with
  | Option.none => s
  | some p => if p.state = .none then s else s.replacePlan cid (some ⟨.none, []⟩)

/-- The beginning of `PlanManager::execute_plan`. -/
def beginExecution (cfg : Config) (s : State) (cid now : ℤ) : State :=
  match s.plans cid with
  | Option.none => s
  | some p =>
    if p.state = .applying then
      let p := p.timeoutActions cfg.actionTimeout now
      (s.setPlan cid (some p)).setPhase cid (.loop p.hostActions p.clusterActions)
    else s

/-- One turn of the loop of `execute_plan`, up to the answer to the request; `none` when the loop is
over. -/
def startAction (cfg : Config) (s : State) (cid now : ℤ) (accepted : Bool) : Option State :=
  match s.plans cid, s.phase cid with
  | some p, .loop hosts cluster =>
    match p.getNextAction with
    | Option.none => Option.none
    | some i =>
      match p.actions[i]? with
      | Option.none => Option.none
      | some a =>
        if cfg.maxActionsPerHost ≤ hosts a.hostId ∨ cfg.maxActionsPerCluster ≤ cluster then Option.none
        else if accepted then
          some { (s.setPlan cid (some { p with
                    actions := p.actions.modify i fun a => { a with timestamp := now } })).setPhase cid
                  (.starting hosts cluster i s.started.length) with
                started := s.started ++ [⟨cid, s.gen cid, a.id, a.vmId⟩] }
        else
          some (s.setPlan cid (some { p with
            actions := p.actions.modify i fun a => { a with state := .error, timestamp := now } }))
  | _, _ => Option.none

/-- The end of `start_action` for a request that was accepted. -/
def writeRecord (s : State) (cid : ℤ) : Option State :=
  match s.plans cid, s.phase cid with
  | some p, .starting hosts cluster i op =>
    match p.actions[i]? with
    | Option.none => Option.none
    | some a =>
      let h := s.vms a.vmId
      let h := match h.current with
        | Option.none => h
        | some _ => { h with current := some ⟨cid, a.id, some op⟩ }
      some (((s.setPlan cid (some { p with
          actions := p.actions.modify i fun a => { a with state := .applying } })).setPhase cid
        (.loop (Function.update hosts a.hostId (hosts a.hostId + 1)) (cluster + 1))).setHistory a.vmId h)
  | _, _ => Option.none

/-- The end of `execute_plan`. -/
def endExecution (s : State) (cid : ℤ) : Option State :=
  match s.plans cid, s.phase cid with
  | some p, .loop _ _ => some ((s.setPlan cid (some p.checkCompleted)).setPhase cid .idle)
  | _, _ => Option.none

/-- `PlanManager::action_finished`. -/
def actionFinished (s : State) (r : Report) : State :=
  match s.plans r.planId with
  | Option.none => s
  | some p =>
    let (p', found) := p.actionFinished r.actionId r.state
    if found then s.setPlan r.planId (some p'.checkCompleted) else s

/-- A new history record (`add_history`, `cp_history`, `cp_previous_history`). -/
def newHistory (s : State) (vm : ℤ) (r : Option Record) : State :=
  s.setHistory vm ⟨r, (s.vms vm).current⟩

/-- An operation that the manager has started on the virtual machine, or one of another origin. -/
def endedOn (s : State) (vm : ℤ) : Option ℕ → Bool
  | Option.none => true
  | some n => match s.started[n]? with
    | some o => o.vm = vm
    | Option.none => false

/-- The end of an operation: the handlers report it when the record has a plan. -/
def report (s : State) (vm : ℤ) (success : Bool) (ended : Option ℕ) : Option State :=
  if endedOn s vm ended then
    match (s.vms vm).current with
    | some r =>
      if -1 ≤ r.planId then
        some { s with
          inbox := s.inbox ++
            [⟨r.planId, r.actionId, if success then .done else .error, r.writtenFor, ended⟩] }
      else some s
    | Option.none => some s
  else Option.none

/-- The plan is not locked by `execute_plan`. -/
def unlocked (s : State) (cid : ℤ) : Bool :=
  match s.phase cid with
  | .idle => true
  | _ => false

/-- One step. -/
def step (cfg : Config) (s : State) : Event → Option State
  | .addPlan cid actions cluster =>
    if unlocked s cid then some (addPlan s cid actions cluster) else Option.none
  | .startPlan cid => if unlocked s cid then some (startPlan s cid) else Option.none
  | .deletePlan cid => if unlocked s cid then some (deletePlan s cid) else Option.none
  | .insertPlan cid =>
    if (s.plans cid).isNone then some (s.replacePlan cid (some ⟨.none, []⟩)) else Option.none
  | .dropPlan cid => if unlocked s cid then some (s.replacePlan cid Option.none) else Option.none
  | .beginExecution cid now => if unlocked s cid then some (beginExecution cfg s cid now) else Option.none
  | .startAction cid now accepted => startAction cfg s cid now accepted
  | .writeRecord cid => writeRecord s cid
  | .endExecution cid => endExecution s cid
  | .addHistory vm => some (newHistory s vm (some .new))
  | .cpHistory vm =>
    if (s.vms vm).current.isSome then some (newHistory s vm (s.vms vm).current) else Option.none
  | .cpPreviousHistory vm =>
    if (s.vms vm).current.isSome && (s.vms vm).previous.isSome then
      some (newHistory s vm (s.vms vm).previous)
    else Option.none
  | .report vm success ended => report s vm success ended
  | .deliver i =>
    match s.inbox[i]? with
    | some r =>
      if unlocked s r.planId then some (actionFinished { s with inbox := s.inbox.eraseIdx i } r)
      else Option.none
    | Option.none => Option.none

/-- No plan has actions, and nothing runs. -/
def init : State :=
  { plans := fun cid => if cid = -1 then some ⟨.none, []⟩ else Option.none
    phase := fun _ => .idle
    vms := fun _ => ⟨Option.none, Option.none⟩
    inbox := []
    gen := fun _ => 0
    started := [] }

end PlanManager
