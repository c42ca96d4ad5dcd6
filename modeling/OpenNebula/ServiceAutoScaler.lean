/-
# The auto scaler of OneFlow (`src/flow/lib/ServiceAutoScaler.rb`)

The loop of the auto scaler reads all the services once and goes through the roles of the running ones.  It
evaluates the policies of a role on the copy that it has read (`VMRole#scale?`), writes the policies back
(`ServiceLCM#update_role_policies`) and scales the role if a policy asks for it.  Users update services and
scale roles at any time; each of these requests works on the document under the lock of the service, as the
writes of the loop do.

`Kept` says that the policies and the cooldown of every role are what the users have set in their last accepted
request, and `plain` is a service without what the evaluations note in it.

The loop keeps both (`kept_of_reach`) as long as no accepted update changes the policies of a role between the
reading and the writing of this role, and no policy that asks for a change has a cooldown of its own: the
whole lists of the copy replace those of the document, and the cooldown of the policy replaces that of the
role.

Conventions of the embedding:

* `rule` is the value of an expression on the machines and their monitoring data, `planned` the time that a
  schedule is for; both come with the event.
* `internal` stands for the attributes that cannot be updated and that no function here reads one by one.
* Percentages are computed in integers.
* `asked` is not in the program.
-/
import OpenNebula.Transition

open Transition

namespace ServiceAutoScaler

variable {β : Type*}

/-! ## Policies and roles -/

inductive AdjustType
  | change
  | percentageChange
  | cardinality
  | other
  deriving DecidableEq

/-- What a user sets in an elasticity policy. -/
structure ElasticitySettings where
  type : AdjustType
  adjust : ℤ
  minAdjustStep : ℤ
  expression : Option String
  period : ℤ
  periodNumber : ℤ
  cooldown : Option ℤ
  deriving DecidableEq

structure ElasticityPolicy extends ElasticitySettings where
  lastEval : Option ℤ
  trueEvals : Option ℤ
  expressionEvaluated : Option String
  deriving DecidableEq

/-- What a user sets in a scheduled policy. -/
structure ScheduledSettings where
  type : AdjustType
  adjust : Option ℤ
  minAdjustStep : ℤ
  startTime : Option String
  recurrence : Option String
  cooldown : Option ℤ
  deriving DecidableEq

structure ScheduledPolicy extends ScheduledSettings where
  lastEval : Option ℤ
  deriving DecidableEq

/-- The body of a role; `vr` is set for the roles of virtual routers. -/
structure Role (β : Type*) where
  name : String
  vr : Bool
  state : Option ℕ
  cardinality : ℤ
  minVms : Option ℤ
  maxVms : Option ℤ
  elasticityPolicies : Option (List ElasticityPolicy)
  scheduledPolicies : Option (List ScheduledPolicy)
  cooldown : Option ℤ
  internal : β

structure Service (β : Type*) where
  state : ℕ
  roles : List (Role β)
  internal : β

/-- `STATE` of roles and services, which have these in common. -/
def pending : ℕ := 0
def running : ℕ := 2
def warning : ℕ := 4
def done : ℕ := 5
def scaling : ℕ := 8
def failedScaling : ℕ := 9
def hold : ℕ := 15

/-! ## The evaluation of the policies -/

namespace Role

/-- `calculate_new_cardinality`. -/
def calculateNewCardinality (role : Role β) (type : AdjustType) (adjust minAdjustStep : ℤ) : ℤ :=
  let high := max role.cardinality (role.maxVms.getD 0)
  let low := role.minVms.getD 0
  let bounded (n : ℤ) : ℤ :=
    if 0 < adjust then (if high < n then high else n)
    else if adjust < 0 then (if n < low then low else n)
    else n
  match type with
  | .change => bounded (role.cardinality + adjust)
  | .percentageChange =>
    let change := role.cardinality * adjust
    let sign := if 0 < change then 1 else -1
    let size := if |change| < 100 then 1 else |change| / 100
    bounded (role.cardinality + sign * max size minAdjustStep)
  | .cardinality => bounded adjust
  | .other => role.cardinality

/-- `scale_time?`. -/
def scaleTime (role : Role β) (now : ℤ) (planned : ScheduledSettings → ℤ → Option ℤ)
    (policy : ScheduledPolicy) : ScheduledPolicy × ℤ × Option ℤ :=
  let lastEval := policy.lastEval.getD 0
  let policy' := { policy with lastEval := some now }
  if lastEval = 0 then (policy', 0, none)
  else
    match policy.adjust with
    | none => (policy', 0, none)
    | some targetVms =>
      match planned policy.toScheduledSettings lastEval with
      | none => (policy', 0, none)
      | some startTime =>
        if lastEval < startTime ∧ startTime ≤ now then
          (policy', role.calculateNewCardinality policy.type targetVms policy.minAdjustStep -
            role.cardinality, policy.cooldown)
        else (policy', 0, policy.cooldown)

/-- `scale_attributes?`. -/
def scaleAttributes (role : Role β) (now : ℤ) (rule : Option String → Bool × Option String)
    (policy : ElasticityPolicy) : ElasticityPolicy × ℤ × Option ℤ :=
  if now < policy.lastEval.getD 0 + policy.period then (policy, 0, some 0)
  else
    let (expValue, expSt) := rule policy.expression
    let newEvals := if expValue then min (policy.trueEvals.getD 0 + 1) policy.periodNumber else 0
    let newCardinality :=
      if expValue ∧ policy.periodNumber ≤ newEvals then
        role.calculateNewCardinality policy.type policy.adjust policy.minAdjustStep
      else role.cardinality
    ({ policy with lastEval := some now, trueEvals := some newEvals, expressionEvaluated := expSt },
      newCardinality - role.cardinality, policy.cooldown)

end Role

/-- The first policy that asks for a change; those after it are not evaluated. -/
def firstScale {P : Type*} (scale : P → P × ℤ × Option ℤ) : List P → List P × Option (ℤ × Option ℤ)
  | [] => ([], none)
  | p :: ps =>
    let (p', diff, cooldown) := scale p
    if diff ≠ 0 then (p' :: ps, some (diff, cooldown))
    else
      let (ps', fired) := firstScale scale ps
      (p' :: ps', fired)

/-- What the evaluation of a role needs from outside. -/
structure Inputs where
  now : ℤ
  rule : Option String → Bool × Option String
  planned : ScheduledSettings → ℤ → Option ℤ

/-- `scale?`, with the role after the evaluation. -/
def Role.scale (defaultCooldown : ℤ) (i : Inputs) (role : Role β) : Role β × ℤ × Option ℤ :=
  if role.vr then (role, 0, some 0)
  else
    let scheduled := firstScale (role.scaleTime i.now i.planned)
    let role₁ := { role with scheduledPolicies := role.scheduledPolicies.map fun ps => (scheduled ps).1 }
    match (scheduled (role.scheduledPolicies.getD [])).2 with
    | some (diff, cooldown) => (role₁, diff, cooldown)
    | none =>
      let elasticity := firstScale (role.scaleAttributes i.now i.rule)
      let role₂ := { role₁ with elasticityPolicies := role.elasticityPolicies.map fun ps => (elasticity ps).1 }
      match (elasticity (role.elasticityPolicies.getD [])).2 with
      | some (diff, cooldown) => (role₂, diff, some (cooldown.getD (role.cooldown.getD defaultCooldown)))
      | none =>
        if role.cardinality < role.minVms.getD 0 then
          (role₂, role.minVms.getD 0 - role.cardinality, some 0)
        else (role₂, 0, some 0)

/-! ## Services -/

/-- `Role.for`, with the defaults that are filled in. -/
def Role.load (defaultCooldown : ℤ) (role : Role β) : Role β :=
  { role with
    state := some (role.state.getD pending)
    cooldown := if role.vr then role.cooldown else some (role.cooldown.getD defaultCooldown) }

namespace Service

/-- `Service#info`. -/
def info (defaultCooldown : ℤ) (service : Service β) : Service β :=
  { service with roles := service.roles.map (Role.load defaultCooldown) }

/-- `roles[name]`: of several roles with one name it is the last. -/
def role (service : Service β) (name : String) : Option (Role β) :=
  service.roles.reverse.find? fun role => role.name = name

/-- The values of `roles`. -/
def rolesEach (service : Service β) : List (Role β) :=
  (service.roles.map Role.name).eraseDups.filterMap service.role

end Service

/-- The last role of this name is changed. -/
def modifyRole (name : String) (f : Role β → Role β) : List (Role β) → List (Role β)
  | [] => []
  | role :: roles =>
    if role.name = name ∧ ∀ r ∈ roles, r.name ≠ name then f role :: roles
    else role :: modifyRole name f roles

/-- `update_elasticity_policies`. -/
def Role.updateElasticityPolicies (role : Role β) (policies : List ElasticityPolicy) : Role β :=
  if role.vr then role else { role with elasticityPolicies := some policies }

/-- `update_scheduled_policies`. -/
def Role.updateScheduledPolicies (role : Role β) (policies : List ScheduledPolicy) : Role β :=
  { role with scheduledPolicies := some policies }

/-- `update_cooldown`. -/
def Role.updateCooldown (role : Role β) (cooldown : Option ℤ) : Role β :=
  match cooldown with
  | some n => if role.vr then role else { role with cooldown := some n }
  | none => role

/-- `elasticity_policies`. -/
def Role.elasticity (role : Role β) : List ElasticityPolicy :=
  if role.vr then [] else role.elasticityPolicies.getD []

/-- `scheduled_policies`. -/
def Role.scheduled (role : Role β) : List ScheduledPolicy := role.scheduledPolicies.getD []

/-- The changes of `update_role_policies` in the role, with the policies of `copy`. -/
def Role.updatePolicies (copy : Role β) (cooldown : Option ℤ) (role : Role β) : Role β :=
  let role := if copy.elasticity = [] then role else role.updateElasticityPolicies copy.elasticity
  let role := if copy.scheduled = [] then role else role.updateScheduledPolicies copy.scheduled
  role.updateCooldown cooldown

/-- `VMRole#update` and `VRRole#update`; true if there is no error. -/
def Role.update (role : Role β) (cardinality : ℤ) (force : Bool) : Bool :=
  !role.vr && (force || (!decide (cardinality < role.minVms.getD 0) &&
    role.maxVms.all fun high => !decide (high < cardinality)))

/-- `state=` of a role, with its number of machines and its internal attributes. -/
def Role.setScaling (cardinality : ℤ) (ok : Bool) (internal : β) (role : Role β) : Role β :=
  if ok then
    { role with
      cardinality := cardinality, internal := internal, state := some scaling
      elasticityPolicies := role.elasticityPolicies.map fun ps => ps.map fun p => { p with trueEvals := none } }
  else { role with cardinality := cardinality, internal := internal, state := some failedScaling }

/-- `scale_action`; `ok` says if the machines could be started or terminated. -/
def Service.scaleAction (service : Service β) (name : String) (cardinality : ℤ) (force ok : Bool)
    (internal : β) : Option (Service β) :=
  if service.state = running then
    match service.role name with
    | none => none
    | some role =>
      if role.update cardinality force ∧ cardinality - role.cardinality ≠ 0 then
        some { service with
          roles := modifyRole name (Role.setScaling cardinality ok internal) service.roles
          state := if ok then scaling else failedScaling }
      else none
  else none

/-- The template of an update: what is not in it is `none`. -/
structure Template (β : Type*) where
  state : Option ℕ
  roles : Option (List (Role β))
  internal : Option β

/-- `can_update?`. -/
def Service.canUpdate (service : Service β) : Bool :=
  service.state = pending || service.state = running || service.state = warning || service.state = done ||
    service.state = hold

/-- `Role#check_new_template`. -/
def Role.checkNewTemplate [DecidableEq β] (role new : Role β) : Bool :=
  decide (new.cardinality = role.cardinality) && decide (new.state = role.state) &&
    decide (new.internal = role.internal)

/-- `service_update`, of a service that has been read; `none` if the update is not accepted. -/
def Service.serviceUpdate [DecidableEq β] (service : Service β) (template : Template β) (append : Bool) :
    Option (Service β) :=
  if service.canUpdate then
    if append then
      if template.state = none ∧ template.internal.isNone then
        some { service with roles := template.roles.getD service.roles }
      else none
    else
      match template.roles with
      | none => none
      | some roles =>
        if roles.length = service.rolesEach.length ∧ template.state = some service.state ∧
            template.internal = some service.internal ∧
            roles.all fun new => (service.role new.name).any fun role => role.checkNewTemplate new then
          some { service with roles := roles }
        else none
  else none

/-! ## The loop and the requests -/

/-- A role that the loop has read. -/
structure Copy (β : Type*) where
  id : ℕ
  role : Role β

/-- Where the loop is with the first of its copies. -/
inductive Phase
  | evaluating
  | writing (diff : ℤ) (cooldown : Option ℤ)
  | scaling (target : ℤ)
  deriving DecidableEq

/-- What a user sets in a role. -/
structure RoleSettings where
  elasticity : List ElasticitySettings
  scheduled : List ScheduledSettings
  cooldown : ℤ
  deriving DecidableEq

def Role.settings (defaultCooldown : ℤ) (role : Role β) : RoleSettings :=
  ⟨(role.elasticityPolicies.getD []).map ElasticityPolicy.toElasticitySettings,
    (role.scheduledPolicies.getD []).map ScheduledPolicy.toScheduledSettings,
    role.cooldown.getD defaultCooldown⟩

def Service.settings (defaultCooldown : ℤ) (service : Service β) : List (String × RoleSettings) :=
  service.roles.map fun role => (role.name, role.settings defaultCooldown)

structure State (β : Type*) where
  pool : ℕ → Option (Service β)
  copies : List (Copy β)
  phase : Phase
  dead : Bool
  asked : ℕ → Option (List (String × RoleSettings))

def State.init : State β := ⟨fun _ => none, [], .evaluating, false, fun _ => none⟩

/-- The steps; `progress` is a step of the life cycle of a service. -/
inductive Event (β : Type*)
  | create (id : ℕ) (service : Service β)
  | delete (id : ℕ)
  | serviceUpdate (id : ℕ) (template : Template β) (append : Bool)
  | scaleRequest (id : ℕ) (name : String) (cardinality : ℤ) (force ok : Bool) (internal : β)
  | progress (id state : ℕ) (role : Role β → Option ℕ × ℤ × β)
  | read (ids : List ℕ)
  | evaluate (i : Inputs)
  | write
  | scale (ok : Bool) (internal : β)

section Steps

variable [DecidableEq β] (defaultCooldown : ℤ)

namespace State

def store (s : State β) (id : ℕ) (service : Service β) : State β :=
  { s with pool := Function.update s.pool id (some service) }

/-- A request of a user that is accepted. -/
def accept (s : State β) (id : ℕ) (service : Service β) : State β :=
  { s.store id service with
    asked := Function.update s.asked id (some (service.settings defaultCooldown)) }

/-- The life cycle changes states, numbers of machines and internal attributes. -/
def progress (s : State β) (id state : ℕ) (role : Role β → Option ℕ × ℤ × β) : State β :=
  match s.pool id with
  | none => s
  | some service =>
    s.store id { service with
      state := state
      roles := service.roles.map fun r =>
        { r with state := (role r).1, cardinality := (role r).2.1, internal := (role r).2.2 } }

/-- `scale_action` of a service in the pool. -/
def scaleAction (s : State β) (id : ℕ) (name : String) (cardinality : ℤ) (force ok : Bool)
    (internal : β) : State β :=
  match s.pool id with
  | none => s
  | some service =>
    match (service.info defaultCooldown).scaleAction name cardinality force ok internal with
    | none => s
    | some service' => s.store id service'

/-- The roles of a service that the loop goes through. -/
def copiesOf (s : State β) (id : ℕ) : List (Copy β) :=
  match s.pool id with
  | none => []
  | some service =>
    if service.state = running then (service.info defaultCooldown).rolesEach.map (Copy.mk id) else []

/-- The loop has finished with the first of its copies. -/
def next (s : State β) : State β := { s with copies := s.copies.tail, phase := .evaluating }

/-- `update_role_policies`; the loop dies if the role has gone. -/
def write (s : State β) (c : Copy β) (diff : ℤ) (cooldown : Option ℤ) : State β :=
  let after (s : State β) : State β :=
    if diff ≠ 0 then { s with phase := .scaling (c.role.cardinality + diff) } else s.next
  match s.pool c.id with
  | none => after s
  | some service =>
    match (service.info defaultCooldown).role c.role.name with
    | none => { s with copies := [], phase := .evaluating, dead := true }
    | some _ =>
      after (s.store c.id { service.info defaultCooldown with
        roles := modifyRole c.role.name (c.role.updatePolicies cooldown)
          (service.info defaultCooldown).roles })

end State

def step (s : State β) : Event β → Option (State β)
  | .create id service =>
    if s.asked id = none then some (s.accept defaultCooldown id service) else none
  | .delete id => some { s with pool := Function.update s.pool id none }
  | .serviceUpdate id template append =>
    match s.pool id with
    | none => some s
    | some service =>
      match (service.info defaultCooldown).serviceUpdate template append with
      | none => some s
      | some service' => some (s.accept defaultCooldown id service')
  | .scaleRequest id name cardinality force ok internal =>
    some (s.scaleAction defaultCooldown id name cardinality force ok internal)
  | .progress id state role => some (s.progress id state role)
  | .read ids =>
    if s.copies = [] ∧ s.dead = false then
      some { s with copies := ids.flatMap (s.copiesOf defaultCooldown), phase := .evaluating }
    else none
  | .evaluate i =>
    match s.copies, s.phase with
    | c :: cs, .evaluating =>
      let (role, diff, cooldown) := c.role.scale defaultCooldown i
      -- if diff is zero, cooldown doesn't matter
      some { s with
        copies := ⟨c.id, role⟩ :: cs
        phase := .writing diff (if diff = 0 then none else cooldown) }
    | _, _ => none
  | .write =>
    match s.copies, s.phase with
    | c :: _, .writing diff cooldown => some (s.write defaultCooldown c diff cooldown)
    | _, _ => none
  | .scale ok internal =>
    match s.copies, s.phase with
    | c :: _, .scaling target =>
      some (s.scaleAction defaultCooldown c.id c.role.name target false ok internal).next
    | _, _ => none

end Steps

/-! ## What users have set -/

/-- The settings are those of the last accepted request. -/
def Kept (defaultCooldown : ℤ) (s : State β) : Prop :=
  ∀ id service, s.pool id = some service → s.asked id = some (service.settings defaultCooldown)

/-- A role without what the evaluations note in its policies. -/
def Role.plain (defaultCooldown : ℤ) (role : Role β) : Role β :=
  { role.load defaultCooldown with
    elasticityPolicies := role.elasticityPolicies.map fun ps =>
      ps.map fun p => ⟨p.toElasticitySettings, none, none, none⟩
    scheduledPolicies := role.scheduledPolicies.map fun ps => ps.map fun p => ⟨p.toScheduledSettings, none⟩ }

def Service.plain (defaultCooldown : ℤ) (service : Service β) : Service β :=
  { service with roles := service.roles.map (Role.plain defaultCooldown) }

/-- The lists of the copy that would be written have the settings of those in the role. -/
def Agrees (defaultCooldown : ℤ) (copy role : Role β) : Prop :=
  (copy.vr = false → role.vr = false → (copy.settings defaultCooldown).elasticity ≠ [] →
    (role.settings defaultCooldown).elasticity = (copy.settings defaultCooldown).elasticity) ∧
  ((copy.settings defaultCooldown).scheduled ≠ [] →
    (role.settings defaultCooldown).scheduled = (copy.settings defaultCooldown).scheduled)

instance (defaultCooldown : ℤ) (copy role : Role β) : Decidable (Agrees defaultCooldown copy role) := by
  unfold Agrees
  infer_instance

/-- The copies that the loop has not yet written: the first one is written before its role is scaled. -/
def State.unwritten (s : State β) : List (Copy β) :=
  match s.phase with
  | .scaling _ => s.copies.tail
  | _ => s.copies

/-- No accepted update changes policies that the loop has read and not yet written, and the loop does not write
a cooldown that is not the one of the role. -/
def Timely [DecidableEq β] (defaultCooldown : ℤ) (s : State β) : Event β → Prop
  | .serviceUpdate id template append =>
    ∀ service ∈ s.pool id, ∀ service' ∈ (service.info defaultCooldown).serviceUpdate template append,
      ∀ c ∈ s.unwritten, c.id = id → ∀ role ∈ service'.role c.role.name, Agrees defaultCooldown c.role role
  | .write =>
    match s.copies, s.phase with
    | c :: _, .writing _ cooldown =>
      ∀ service ∈ s.pool c.id, ∀ role ∈ (service.info defaultCooldown).role c.role.name,
        role.vr = true ∨ cooldown = none ∨ cooldown = role.cooldown
    | _, _ => True
  | _ => True

instance [DecidableEq β] (defaultCooldown : ℤ) (s : State β) (e : Event β) :
    Decidable (Timely defaultCooldown s e) := by
  unfold Timely
  split
  · infer_instance
  · split <;> infer_instance
  · infer_instance

/-! ## An evaluation keeps the settings -/

section Evaluation

theorem map_firstScale {P γ : Type*} {scale : P → P × ℤ × Option ℤ} {g : P → γ}
    (h : ∀ p, g (scale p).1 = g p) (ps : List P) : (firstScale scale ps).1.map g = ps.map g := by
  induction ps with
  | nil => rfl
  | cons p ps ih =>
    unfold firstScale
    dsimp only
    split
    · rw [List.map_cons, List.map_cons, h]
    · rw [List.map_cons, List.map_cons, h, ih]

theorem scaleTime_settings (role : Role β) (now : ℤ) (planned : ScheduledSettings → ℤ → Option ℤ)
    (p : ScheduledPolicy) : (role.scaleTime now planned p).1.toScheduledSettings = p.toScheduledSettings := by
  unfold Role.scaleTime
  dsimp only
  split
  · rfl
  · split
    · rfl
    · split
      · rfl
      · split <;> rfl

theorem scaleAttributes_settings (role : Role β) (now : ℤ) (rule : Option String → Bool × Option String)
    (p : ElasticityPolicy) :
    (role.scaleAttributes now rule p).1.toElasticitySettings = p.toElasticitySettings := by
  unfold Role.scaleAttributes
  split
  · rfl
  · rfl

theorem map_getD {P γ : Type*} {f : List P → List P} {g : P → γ} (h : ∀ ps, (f ps).map g = ps.map g)
    (o : Option (List P)) : ((o.map f).getD []).map g = (o.getD []).map g := by
  cases o with
  | none => rfl
  | some ps => exact h ps

/-- **An evaluation only notes its results.** -/
theorem scale_settings (defaultCooldown : ℤ) (i : Inputs) (role : Role β) :
    (role.scale defaultCooldown i).1.name = role.name ∧ (role.scale defaultCooldown i).1.vr = role.vr ∧
      (role.scale defaultCooldown i).1.settings defaultCooldown = role.settings defaultCooldown := by
  have hscheduled := map_getD (map_firstScale (scaleTime_settings role i.now i.planned))
    role.scheduledPolicies
  have helasticity := map_getD (map_firstScale (scaleAttributes_settings role i.now i.rule))
    role.elasticityPolicies
  unfold Role.scale Role.settings
  dsimp only
  split
  · exact ⟨rfl, rfl, rfl⟩
  · split
    · refine ⟨rfl, rfl, ?_⟩
      rw [hscheduled]
    · split
      · refine ⟨rfl, rfl, ?_⟩
        rw [hscheduled, helasticity]
      · split
        · refine ⟨rfl, rfl, ?_⟩
          rw [hscheduled, helasticity]
        · refine ⟨rfl, rfl, ?_⟩
          rw [hscheduled, helasticity]

end Evaluation

/-! ## The last role of a name -/

section Lookup

variable {γ : Type*}

/-- A change of the last role that is not seen in it is not seen in the list. -/
theorem map_modifyRole {name : String} {f : Role β → Role β} {g : Role β → γ} (roles : List (Role β))
    (h : ∀ r, (roles.reverse.find? fun role => role.name = name) = some r → g (f r) = g r) :
    (modifyRole name f roles).map g = roles.map g := by
  induction roles with
  | nil => rfl
  | cons role roles ih =>
    have hfind : ((role :: roles).reverse.find? fun r => r.name = name) =
        (roles.reverse.find? fun r => r.name = name).or
          ([role].find? fun r => r.name = name) := by
      rw [List.reverse_cons, List.find?_append]
    unfold modifyRole
    split
    · rename_i hlast
      have hnone : (roles.reverse.find? fun r => r.name = name) = none := by
        rw [List.find?_eq_none]
        intro r hr
        simpa using hlast.2 r (List.mem_reverse.mp hr)
      rw [List.map_cons, List.map_cons, h role (by
        rw [hfind, hnone, Option.none_or]
        exact List.find?_cons_of_pos (decide_eq_true hlast.1))]
    · rw [List.map_cons, List.map_cons, ih fun r hr => h r (by
        rw [hfind, hr]
        rfl)]

/-- A list is searched in the same way after a change that the names do not show. -/
theorem find_congr {g : Role β → γ} (key : γ → String) (hkey : ∀ r, key (g r) = r.name)
    {roles roles' : List (Role β)} (h : roles.map g = roles'.map g) (name : String) :
    (roles.reverse.find? fun r => r.name = name).map g = (roles'.reverse.find? fun r => r.name = name).map g := by
  have hsearch : ∀ l : List (Role β), (l.reverse.find? fun r => r.name = name).map g =
      (l.map g).reverse.find? fun x => key x = name := by
    intro l
    rw [← List.map_reverse, List.find?_map]
    congr 2
    funext r
    rw [Function.comp_apply, hkey]
  rw [hsearch, hsearch, h]

end Lookup

/-! ## Steps -/

section Kept

variable {defaultCooldown : ℤ} {s s' : State β}

/-- The part of a role on which its settings and their writing depend. -/
def Role.view (defaultCooldown : ℤ) (role : Role β) : String × Bool × RoleSettings :=
  (role.name, role.vr, role.settings defaultCooldown)

def Service.view (defaultCooldown : ℤ) (service : Service β) : List (String × Bool × RoleSettings) :=
  service.roles.map (Role.view defaultCooldown)

theorem load_view (role : Role β) :
    (role.load defaultCooldown).view defaultCooldown = role.view defaultCooldown := by
  have hcooldown : (role.load defaultCooldown).cooldown.getD defaultCooldown =
      role.cooldown.getD defaultCooldown := by
    unfold Role.load
    dsimp only
    split <;> rfl
  unfold Role.view Role.settings
  rw [hcooldown]
  rfl

theorem info_view (service : Service β) :
    (service.info defaultCooldown).view defaultCooldown = service.view defaultCooldown := by
  show (service.roles.map _).map _ = service.roles.map _
  rw [List.map_map]
  exact List.map_congr_left fun role _ => load_view role

theorem load_plain (role : Role β) :
    (role.load defaultCooldown).plain defaultCooldown = role.plain defaultCooldown := by
  unfold Role.plain Role.load
  dsimp only
  congr 1
  split <;> rfl

theorem info_plain (service : Service β) :
    (service.info defaultCooldown).plain defaultCooldown = service.plain defaultCooldown := by
  have hroles : (service.roles.map (Role.load defaultCooldown)).map (Role.plain defaultCooldown) =
      service.roles.map (Role.plain defaultCooldown) := by
    rw [List.map_map]
    exact List.map_congr_left fun role _ => load_plain role
  unfold Service.plain Service.info
  dsimp only
  rw [hroles]

/-- What is noted in the policies is not among the settings. -/
theorem plain_view (role : Role β) :
    (role.plain defaultCooldown).view defaultCooldown = role.view defaultCooldown := by
  have helasticity : (role.plain defaultCooldown).elasticityPolicies.getD [] =
      (role.elasticityPolicies.getD []).map fun p => ⟨p.toElasticitySettings, none, none, none⟩ := by
    show (role.elasticityPolicies.map _).getD [] = _
    cases role.elasticityPolicies <;> rfl
  have hscheduled : (role.plain defaultCooldown).scheduledPolicies.getD [] =
      (role.scheduledPolicies.getD []).map fun p => ⟨p.toScheduledSettings, none⟩ := by
    show (role.scheduledPolicies.map _).getD [] = _
    cases role.scheduledPolicies <;> rfl
  have hcooldown : ((role.load defaultCooldown).settings defaultCooldown).cooldown =
      (role.settings defaultCooldown).cooldown :=
    congrArg (fun v => v.2.2.cooldown) (load_view role)
  have hsettings : (role.plain defaultCooldown).settings defaultCooldown = role.settings defaultCooldown := by
    unfold Role.settings
    rw [helasticity, hscheduled, List.map_map, List.map_map]
    exact congrArg _ hcooldown
  unfold Role.view
  rw [hsettings]
  rfl

theorem view_of_plain {roles roles' : List (Role β)}
    (h : roles.map (Role.plain defaultCooldown) = roles'.map (Role.plain defaultCooldown)) :
    roles.map (Role.view defaultCooldown) = roles'.map (Role.view defaultCooldown) := by
  have hview : Role.view (β := β) defaultCooldown = Role.view defaultCooldown ∘ Role.plain defaultCooldown := by
    funext role
    exact (plain_view role).symm
  rw [hview, ← List.map_map, h, List.map_map]

/-- Whether a copy agrees with a role is seen in the settings. -/
theorem Agrees.congr {copy copy' role role' : Role β} (h : Agrees defaultCooldown copy role)
    (hcopy : copy'.view defaultCooldown = copy.view defaultCooldown)
    (hrole : role'.view defaultCooldown = role.view defaultCooldown) : Agrees defaultCooldown copy' role' := by
  obtain ⟨-, hvr, hsettings⟩ : copy'.name = copy.name ∧ copy'.vr = copy.vr ∧
      copy'.settings defaultCooldown = copy.settings defaultCooldown := by
    simpa [Role.view] using hcopy
  obtain ⟨-, hvr', hsettings'⟩ : role'.name = role.name ∧ role'.vr = role.vr ∧
      role'.settings defaultCooldown = role.settings defaultCooldown := by
    simpa [Role.view] using hrole
  unfold Agrees
  rw [hvr, hsettings, hvr', hsettings']
  exact h

theorem Agrees.refl (role : Role β) : Agrees defaultCooldown role role :=
  ⟨fun _ _ _ => rfl, fun _ => rfl⟩

/-- The settings are kept, and the copies that are still to be written agree with the documents. -/
structure Inv (defaultCooldown : ℤ) (s : State β) : Prop where
  kept : Kept defaultCooldown s
  fresh : ∀ c ∈ s.unwritten, ∀ service, s.pool c.id = some service →
    ∀ role, service.role c.role.name = some role → Agrees defaultCooldown c.role role
  known : ∀ c ∈ s.unwritten, s.asked c.id ≠ none

theorem mem_unwritten_of_tail {c : Copy β} (hc : c ∈ s.copies.tail) : c ∈ s.unwritten := by
  unfold State.unwritten
  split
  · exact hc
  · exact List.mem_of_mem_tail hc

theorem settings_of_view {service service' : Service β}
    (h : service'.view defaultCooldown = service.view defaultCooldown) :
    service'.settings defaultCooldown = service.settings defaultCooldown := by
  have hmap := congrArg (List.map fun v : String × Bool × RoleSettings => (v.1, v.2.2)) h
  unfold Service.view at hmap
  rw [List.map_map, List.map_map] at hmap
  exact hmap

theorem role_of_view {service service' : Service β}
    (h : service'.view defaultCooldown = service.view defaultCooldown) {name : String} {role : Role β}
    (hrole : service'.role name = some role) :
    ∃ role', service.role name = some role' ∧ role'.view defaultCooldown = role.view defaultCooldown := by
  have hfind := find_congr (fun v : String × Bool × RoleSettings => v.1) (fun _ => rfl) h name
  unfold Service.role at hrole
  rw [hrole, Option.map_some] at hfind
  obtain ⟨role', hrole', hview⟩ := Option.map_eq_some_iff.mp hfind.symm
  exact ⟨role', hrole', hview⟩

/-- A step that changes nothing that users have set. -/
theorem Inv.of_view (h : Inv defaultCooldown s)
    (hpool : ∀ id service', s'.pool id = some service' →
      ∃ service, s.pool id = some service ∧ service'.view defaultCooldown = service.view defaultCooldown)
    (hasked : s'.asked = s.asked)
    (hcopies : ∀ c' ∈ s'.unwritten, ∃ c ∈ s.unwritten, c'.id = c.id ∧
      c'.role.view defaultCooldown = c.role.view defaultCooldown) : Inv defaultCooldown s' := by
  refine ⟨fun id service' hservice' => ?_, fun c' hc' service' hservice' role' hrole' => ?_,
    fun c' hc' => ?_⟩
  · obtain ⟨service, hservice, hview⟩ := hpool id service' hservice'
    rw [hasked, h.kept id service hservice, settings_of_view hview]
  · obtain ⟨c, hc, hid, hcview⟩ := hcopies c' hc'
    obtain ⟨service, hservice, hview⟩ := hpool c'.id service' hservice'
    obtain ⟨role, hrole, hrview⟩ := role_of_view hview hrole'
    have hname : c'.role.name = c.role.name := congrArg Prod.fst hcview
    rw [hid] at hservice
    rw [hname] at hrole
    exact (h.fresh c hc service hservice role hrole).congr hcview hrview.symm
  · obtain ⟨c, hc, hid, -⟩ := hcopies c' hc'
    rw [hasked, hid]
    exact h.known c hc

/-- A document is stored with the settings that it had. -/
theorem store_view {id : ℕ} {service service' : Service β} (hservice : s.pool id = some service)
    (hview : service'.view defaultCooldown = service.view defaultCooldown) (n : ℕ) (t : Service β)
    (ht : (s.store id service').pool n = some t) :
    ∃ service, s.pool n = some service ∧ t.view defaultCooldown = service.view defaultCooldown := by
  have ht' : Function.update s.pool id (some service') n = some t := ht
  rcases eq_or_ne n id with rfl | hne
  · rw [Function.update_self] at ht'
    rw [← Option.some.inj ht']
    exact ⟨service, hservice, hview⟩
  · rw [Function.update_of_ne hne] at ht'
    exact ⟨t, ht', rfl⟩

theorem inv_progress (h : Inv defaultCooldown s) (id state : ℕ) (role : Role β → Option ℕ × ℤ × β) :
    Inv defaultCooldown (s.progress id state role) := by
  unfold State.progress
  split
  · exact h
  · rename_i service hservice
    refine h.of_view (store_view hservice ?_) rfl fun c hc => ⟨c, hc, rfl, rfl⟩
    show (service.roles.map _).map _ = service.roles.map _
    rw [List.map_map]
    rfl

theorem setScaling_view (cardinality : ℤ) (ok : Bool) (internal : β) (role : Role β) :
    (role.setScaling cardinality ok internal).view defaultCooldown = role.view defaultCooldown := by
  have hevals : ((role.elasticityPolicies.map fun ps => ps.map fun p => { p with trueEvals := none }).getD []).map
      ElasticityPolicy.toElasticitySettings =
        (role.elasticityPolicies.getD []).map ElasticityPolicy.toElasticitySettings :=
    map_getD (fun _ => List.map_map) role.elasticityPolicies
  unfold Role.setScaling
  split
  · unfold Role.view Role.settings
    dsimp only
    rw [hevals]
  · rfl

theorem scaleAction_view {service service' : Service β} {name : String} {cardinality : ℤ} {force ok : Bool}
    {internal : β} (h : service.scaleAction name cardinality force ok internal = some service') :
    service'.view defaultCooldown = service.view defaultCooldown := by
  unfold Service.scaleAction at h
  obtain ⟨-, h⟩ := Option.ite_none_right_eq_some.mp h
  split at h
  · exact absurd h.symm (Option.some_ne_none _)
  · obtain ⟨-, h⟩ := Option.ite_none_right_eq_some.mp h
    rw [← Option.some.inj h]
    exact map_modifyRole service.roles fun r _ => setScaling_view cardinality ok internal r

theorem inv_scaleAction (h : Inv defaultCooldown s) (id : ℕ) (name : String) (cardinality : ℤ)
    (force ok : Bool) (internal : β) :
    Inv defaultCooldown (s.scaleAction defaultCooldown id name cardinality force ok internal) := by
  unfold State.scaleAction
  split
  · exact h
  · rename_i service hservice
    split
    · exact h
    · rename_i service' hservice'
      exact h.of_view (store_view hservice ((scaleAction_view hservice').trans (info_view service))) rfl
        fun c hc => ⟨c, hc, rfl, rfl⟩

theorem inv_next (h : Inv defaultCooldown s) : Inv defaultCooldown s.next :=
  h.of_view (fun _ service hservice => ⟨service, hservice, rfl⟩) rfl fun c hc =>
    ⟨c, mem_unwritten_of_tail hc, rfl, rfl⟩

/-- A role as the loop has read it. -/
theorem agrees_copiesOf {id : ℕ} {c : Copy β} (hc : c ∈ s.copiesOf defaultCooldown id) :
    c.id = id ∧ s.pool id ≠ none ∧ ∀ service, s.pool id = some service →
      ∀ role, service.role c.role.name = some role → Agrees defaultCooldown c.role role := by
  unfold State.copiesOf at hc
  split at hc
  · exact absurd hc List.not_mem_nil
  · rename_i service hservice
    split at hc
    · obtain ⟨copy, hcopy, rfl⟩ := List.mem_map.mp hc
      refine ⟨rfl, by rw [hservice]; exact Option.some_ne_none _, fun service' hservice' role hrole => ?_⟩
      rw [hservice] at hservice'
      rw [← Option.some.inj hservice'] at hrole
      obtain ⟨name, -, hname⟩ := List.mem_filterMap.mp hcopy
      have hcopyname : copy.name = name := by simpa using List.find?_some hname
      rw [← hcopyname] at hname
      obtain ⟨role', hrole', hview⟩ := role_of_view (info_view service) hname
      rw [hrole] at hrole'
      rw [← Option.some.inj hrole'] at hview
      exact (Agrees.refl copy).congr rfl hview
    · exact absurd hc List.not_mem_nil

theorem inv_read (h : Inv defaultCooldown s) (ids : List ℕ) :
    Inv defaultCooldown
      { s with copies := ids.flatMap (s.copiesOf defaultCooldown), phase := .evaluating } := by
  refine ⟨h.kept, fun c hc => ?_, fun c hc => ?_⟩
  · obtain ⟨id, -, hc⟩ := List.mem_flatMap.mp hc
    obtain ⟨hid, -, hagrees⟩ := agrees_copiesOf hc
    rw [hid]
    exact hagrees
  · obtain ⟨id, -, hc⟩ := List.mem_flatMap.mp hc
    obtain ⟨hid, hpool, -⟩ := agrees_copiesOf hc
    obtain ⟨service, hservice⟩ := Option.ne_none_iff_exists'.mp hpool
    rw [hid]
    show s.asked id ≠ none
    rw [h.kept id service hservice]
    exact Option.some_ne_none _

/-- A request of a user. -/
theorem inv_accept (h : Inv defaultCooldown s) (id : ℕ) (service : Service β)
    (hcopies : ∀ c ∈ s.unwritten, c.id = id → ∀ role, service.role c.role.name = some role →
      Agrees defaultCooldown c.role role) : Inv defaultCooldown (s.accept defaultCooldown id service) := by
  have hpool : ∀ n t, Function.update s.pool id (some service) n = some t →
      (n = id ∧ t = service) ∨ (n ≠ id ∧ s.pool n = some t) := by
    intro n t ht
    rcases eq_or_ne n id with rfl | hne
    · rw [Function.update_self] at ht
      exact Or.inl ⟨rfl, (Option.some.inj ht).symm⟩
    · rw [Function.update_of_ne hne] at ht
      exact Or.inr ⟨hne, ht⟩
  refine ⟨fun n t ht => ?_, fun c hc t ht role hrole => ?_, fun c hc => ?_⟩
  · show Function.update s.asked id _ n = _
    rcases hpool n t ht with ⟨rfl, rfl⟩ | ⟨hne, ht⟩
    · exact Function.update_self _ _ _
    · rw [Function.update_of_ne hne]
      exact h.kept n t ht
  · rcases hpool c.id t ht with ⟨hid, rfl⟩ | ⟨-, ht⟩
    · exact hcopies c hc hid role hrole
    · exact h.fresh c hc t ht role hrole
  · show Function.update s.asked id _ c.id ≠ none
    rcases eq_or_ne c.id id with heq | hne
    · rw [heq, Function.update_self]
      exact Option.some_ne_none _
    · rw [Function.update_of_ne hne]
      exact h.known c hc

/-! ## The writing of the loop -/

/-- Lists of policies with the same settings differ in what is noted in them. -/
theorem map_plain {P γ : Type*} {settings : P → γ} (new : γ → P) {ps : List P} {o : Option (List P)}
    (hne : ps ≠ []) (h : (o.getD []).map settings = ps.map settings) :
    some (ps.map fun p => new (settings p)) = o.map fun ps => ps.map fun p => new (settings p) := by
  cases o with
  | none =>
    rw [Option.getD_none, List.map_nil] at h
    exact absurd (List.map_eq_nil_iff.mp h.symm) hne
  | some qs =>
    have hmap := congrArg (List.map new) h
    rw [Option.getD_some, List.map_map, List.map_map] at hmap
    exact congrArg some hmap.symm

theorem updateElasticity_plain {copy role : Role β} (h : Agrees defaultCooldown copy role)
    (hne : copy.elasticity ≠ []) :
    (role.updateElasticityPolicies copy.elasticity).plain defaultCooldown = role.plain defaultCooldown := by
  have hcopy : copy.vr = false ∧ copy.elasticity = copy.elasticityPolicies.getD [] := by
    unfold Role.elasticity at hne ⊢
    split at hne
    · exact absurd rfl hne
    · rename_i hvr
      exact ⟨eq_false_of_ne_true hvr, if_neg hvr⟩
  unfold Role.updateElasticityPolicies
  split
  · rfl
  · rename_i hvr
    have hsettings : (role.elasticityPolicies.getD []).map ElasticityPolicy.toElasticitySettings =
        copy.elasticity.map ElasticityPolicy.toElasticitySettings := by
      rw [hcopy.2]
      refine h.1 hcopy.1 (eq_false_of_ne_true hvr) fun hnil => ?_
      rw [hcopy.2] at hne
      exact hne (List.map_eq_nil_iff.mp hnil)
    have hmap := map_plain (fun e => (⟨e, none, none, none⟩ : ElasticityPolicy)) hne hsettings
    unfold Role.plain Role.load
    dsimp only
    rw [← hmap]
    rfl

theorem updateScheduled_plain {copy role : Role β} (h : Agrees defaultCooldown copy role)
    (hne : copy.scheduled ≠ []) :
    (role.updateScheduledPolicies copy.scheduled).plain defaultCooldown = role.plain defaultCooldown := by
  have hsettings := h.2 fun hnil => hne (List.map_eq_nil_iff.mp hnil)
  have hmap := map_plain (fun e => (⟨e, none⟩ : ScheduledPolicy)) hne hsettings
  unfold Role.updateScheduledPolicies Role.plain Role.load
  dsimp only
  rw [← hmap]
  rfl

theorem updateCooldown_plain {cooldown : Option ℤ} {role : Role β}
    (h : role.vr = true ∨ cooldown = none ∨ cooldown = role.cooldown) :
    (role.updateCooldown cooldown).plain defaultCooldown = role.plain defaultCooldown := by
  unfold Role.updateCooldown
  split
  · rename_i n
    split
    · rfl
    · rename_i hvm
      rcases h with htrue | hnone | heq
      · exact absurd htrue hvm
      · exact absurd hnone (Option.some_ne_none n)
      · rw [heq]
  · rfl

/-- **The loop writes what it has noted.** -/
theorem updatePolicies_plain {copy role : Role β} {cooldown : Option ℤ} (h : Agrees defaultCooldown copy role)
    (hcooldown : role.vr = true ∨ cooldown = none ∨ cooldown = role.cooldown) :
    (copy.updatePolicies cooldown role).plain defaultCooldown = role.plain defaultCooldown := by
  obtain ⟨role₁, hrole₁, hplain₁, hvr₁, hcooldown₁⟩ : ∃ role₁,
      (if copy.elasticity = [] then role else role.updateElasticityPolicies copy.elasticity) = role₁ ∧
      role₁.plain defaultCooldown = role.plain defaultCooldown ∧ role₁.vr = role.vr ∧
      role₁.cooldown = role.cooldown := by
    refine ⟨_, rfl, ?_⟩
    split
    · exact ⟨rfl, rfl, rfl⟩
    · rename_i hne
      refine ⟨updateElasticity_plain h hne, ?_⟩
      unfold Role.updateElasticityPolicies
      split <;> exact ⟨rfl, rfl⟩
  have hagrees₁ : Agrees defaultCooldown copy role₁ := h.congr rfl (by
    rw [← plain_view, hplain₁, plain_view])
  obtain ⟨role₂, hrole₂, hplain₂, hvr₂, hcooldown₂⟩ : ∃ role₂,
      (if copy.scheduled = [] then role₁ else role₁.updateScheduledPolicies copy.scheduled) = role₂ ∧
      role₂.plain defaultCooldown = role₁.plain defaultCooldown ∧ role₂.vr = role₁.vr ∧
      role₂.cooldown = role₁.cooldown := by
    refine ⟨_, rfl, ?_⟩
    split
    · exact ⟨rfl, rfl, rfl⟩
    · rename_i hne
      exact ⟨updateScheduled_plain hagrees₁ hne, rfl, rfl⟩
  unfold Role.updatePolicies
  rw [hrole₁]
  dsimp only
  rw [hrole₂, updateCooldown_plain (by rw [hvr₂, hvr₁, hcooldown₂, hcooldown₁]; exact hcooldown), hplain₂, hplain₁]

/-- A step of the loop that only stores roles as they were. -/
def SamePlain (defaultCooldown : ℤ) (s s' : State β) : Prop :=
  ∀ id, (s'.pool id).map (Service.plain defaultCooldown) = (s.pool id).map (Service.plain defaultCooldown)

theorem view_of_servicePlain {service service' : Service β}
    (h : service'.plain defaultCooldown = service.plain defaultCooldown) :
    service'.view defaultCooldown = service.view defaultCooldown :=
  view_of_plain (congrArg Service.roles h)

theorem plain_write (h : Inv defaultCooldown s) {c : Copy β} (hc : c ∈ s.unwritten) {diff : ℤ}
    {cooldown : Option ℤ}
    (hok : ∀ service ∈ s.pool c.id, ∀ role ∈ (service.info defaultCooldown).role c.role.name,
      role.vr = true ∨ cooldown = none ∨ cooldown = role.cooldown) :
    SamePlain defaultCooldown s (s.write defaultCooldown c diff cooldown) := by
  have hafter : ∀ t : State β, (if diff ≠ 0 then { t with phase := .scaling (c.role.cardinality + diff) }
      else t.next).pool = t.pool := by
    intro t
    split <;> rfl
  intro id
  unfold State.write
  dsimp only
  split
  · rw [hafter]
  · rename_i service hservice
    split
    · rfl
    · rename_i role hrole
      rw [hafter]
      show (Function.update s.pool c.id _ id).map _ = _
      rcases eq_or_ne id c.id with rfl | hne
      · rw [Function.update_self, hservice, Option.map_some, Option.map_some]
        refine congrArg some (Eq.trans ?_ (info_plain service))
        unfold Service.plain
        dsimp only
        rw [map_modifyRole]
        intro r hr
        obtain ⟨r', hr', hview⟩ := role_of_view (info_view service) hr
        have hagrees := (h.fresh c hc service hservice r' hr').congr rfl hview.symm
        exact updatePolicies_plain hagrees (hok service hservice r hr)
      · rw [Function.update_of_ne hne]

theorem inv_write (h : Inv defaultCooldown s) {c : Copy β} {diff : ℤ}
    {cooldown : Option ℤ} (hplain : SamePlain defaultCooldown s (s.write defaultCooldown c diff cooldown)) :
    Inv defaultCooldown (s.write defaultCooldown c diff cooldown) := by
  have hafter : ∀ t : State β, (if diff ≠ 0 then { t with phase := .scaling (c.role.cardinality + diff) }
      else t.next).asked = t.asked ∧ (if diff ≠ 0 then
        { t with phase := .scaling (c.role.cardinality + diff) } else t.next).unwritten = t.copies.tail := by
    intro t
    split <;> exact ⟨rfl, rfl⟩
  have hframe : (s.write defaultCooldown c diff cooldown).asked = s.asked ∧
      ∀ c' ∈ (s.write defaultCooldown c diff cooldown).unwritten, c' ∈ s.unwritten := by
    unfold State.write
    dsimp only
    split
    · obtain ⟨hasked, htail⟩ := hafter s
      exact ⟨hasked, fun c' hc' => mem_unwritten_of_tail (htail ▸ hc')⟩
    · split
      · exact ⟨rfl, fun _ h => absurd h List.not_mem_nil⟩
      · obtain ⟨hasked, htail⟩ := hafter (s.store c.id _)
        exact ⟨hasked, fun c' hc' => mem_unwritten_of_tail (htail ▸ hc')⟩
  refine h.of_view (fun id service' hservice' => ?_) hframe.1 fun c' hc' => ⟨c', hframe.2 c' hc', rfl, rfl⟩
  have hid := hplain id
  rw [hservice', Option.map_some] at hid
  obtain ⟨service, hservice, heq⟩ := Option.map_eq_some_iff.mp hid.symm
  exact ⟨service, hservice, view_of_servicePlain heq.symm⟩

theorem inv_evaluate (h : Inv defaultCooldown s) (i : Inputs) {c : Copy β} {cs : List (Copy β)}
    (hcopies : s.copies = c :: cs) (hphase : s.phase = .evaluating) (diff : ℤ) (cooldown : Option ℤ) :
    Inv defaultCooldown
      { s with
        copies := ⟨c.id, (c.role.scale defaultCooldown i).1⟩ :: cs
        phase := .writing diff cooldown } := by
  obtain ⟨hname, hvr, hsettings⟩ := scale_settings defaultCooldown i c.role
  have hunwritten : s.unwritten = c :: cs := by
    unfold State.unwritten
    rw [hphase, hcopies]
  refine h.of_view (fun _ service hservice => ⟨service, hservice, rfl⟩) rfl fun c' hc' => ?_
  rcases List.mem_cons.mp hc' with rfl | hc'
  · refine ⟨c, ?_, rfl, ?_⟩
    · rw [hunwritten]
      exact List.mem_cons_self
    · unfold Role.view
      rw [hname, hvr, hsettings]
  · refine ⟨c', ?_, rfl, rfl⟩
    rw [hunwritten]
    exact List.mem_cons_of_mem c hc'

variable [DecidableEq β]

/-- The loop writes the first of its copies. -/
theorem exists_write (hstep : step defaultCooldown s .write = some s') :
    ∃ c diff cooldown, c ∈ s.unwritten ∧ s' = s.write defaultCooldown c diff cooldown ∧
      (Timely defaultCooldown s .write → ∀ service ∈ s.pool c.id,
        ∀ role ∈ (service.info defaultCooldown).role c.role.name,
          role.vr = true ∨ cooldown = none ∨ cooldown = role.cooldown) := by
  unfold step at hstep
  dsimp only at hstep
  split at hstep
  · rename_i c cs diff cooldown hcopies hphase
    refine ⟨c, diff, cooldown, ?_, (Option.some.inj hstep).symm, fun hok => ?_⟩
    · unfold State.unwritten
      rw [hphase, hcopies]
      exact List.mem_cons_self
    · unfold Timely at hok
      rw [hcopies, hphase] at hok
      exact hok
  · exact absurd hstep.symm (Option.some_ne_none _)

/-- **What one step preserves.** -/
theorem Inv.step (h : Inv defaultCooldown s) {e : Event β} (hok : Timely defaultCooldown s e)
    (hstep : step defaultCooldown s e = some s') : Inv defaultCooldown s' := by
  cases e with
  | create id service =>
    obtain ⟨hnew, hstep⟩ := Option.ite_none_right_eq_some.mp hstep
    rw [← Option.some.inj hstep]
    refine inv_accept h id service fun c hc hid => ?_
    rw [← hid] at hnew
    exact absurd hnew (h.known c hc)
  | delete id =>
    rw [← Option.some.inj hstep]
    refine h.of_view (fun n service hservice => ⟨service, ?_, rfl⟩) rfl fun c hc => ⟨c, hc, rfl, rfl⟩
    have hservice' : Function.update s.pool id none n = some service := hservice
    rcases eq_or_ne n id with rfl | hne
    · rw [Function.update_self] at hservice'
      exact absurd hservice'.symm (Option.some_ne_none _)
    · rw [Function.update_of_ne hne] at hservice'
      exact hservice'
  | serviceUpdate id template append =>
    unfold ServiceAutoScaler.step at hstep
    dsimp only at hstep
    split at hstep
    · rw [← Option.some.inj hstep]
      exact h
    · rename_i service hservice
      split at hstep
      · rw [← Option.some.inj hstep]
        exact h
      · rename_i service' hservice'
        rw [← Option.some.inj hstep]
        exact inv_accept h id service' (hok service hservice service' hservice')
  | scaleRequest id name cardinality force ok internal =>
    rw [← Option.some.inj hstep]
    exact inv_scaleAction h id name cardinality force ok internal
  | progress id state role =>
    rw [← Option.some.inj hstep]
    exact inv_progress h id state role
  | read ids =>
    obtain ⟨-, hstep⟩ := Option.ite_none_right_eq_some.mp hstep
    rw [← Option.some.inj hstep]
    exact inv_read h ids
  | evaluate i =>
    unfold ServiceAutoScaler.step at hstep
    dsimp only at hstep
    split at hstep
    · rename_i c cs hcopies hphase
      rw [← Option.some.inj hstep]
      exact inv_evaluate h i hcopies hphase _ _
    · exact absurd hstep.symm (Option.some_ne_none _)
  | write =>
    obtain ⟨c, diff, cooldown, hc, rfl, hwrite⟩ := exists_write hstep
    exact inv_write h (plain_write h hc (hwrite hok))
  | scale ok internal =>
    unfold ServiceAutoScaler.step at hstep
    dsimp only at hstep
    split at hstep
    · rename_i c cs target _ _
      rw [← Option.some.inj hstep]
      exact inv_next (inv_scaleAction h c.id c.role.name target false ok internal)
    · exact absurd hstep.symm (Option.some_ne_none _)

end Kept

/-- **The auto scaler keeps to its own.**  In every state reached by requests of users, steps of the life cycle
and steps of the loop, in any order, the settings of the roles are those of the last accepted request, and
what the loop writes next are the notes of its evaluations, as long as no accepted update falls between the
reading and the writing of the policies that it changes and no cooldown of a policy is written. -/
theorem kept_of_reach [DecidableEq β] (defaultCooldown : ℤ) {s : State β}
    (hrun : Reach (step defaultCooldown) (Timely defaultCooldown) State.init s) :
    Kept defaultCooldown s ∧
      ∀ s', Timely defaultCooldown s .write → step defaultCooldown s .write = some s' →
        SamePlain defaultCooldown s s' := by
  have hinit : Inv defaultCooldown (State.init : State β) :=
    ⟨fun _ _ h => absurd h.symm (Option.some_ne_none _), fun _ h => absurd h List.not_mem_nil,
      fun _ h => absurd h List.not_mem_nil⟩
  have hinv := hrun.inv (P := Inv defaultCooldown) hinit fun _ _ _ h hok hstep => h.step hok hstep
  refine ⟨hinv.kept, fun s' hok hstep => ?_⟩
  obtain ⟨c, diff, cooldown, hc, rfl, hwrite⟩ := exists_write hstep
  exact plain_write hinv hc (hwrite hok)

/-! ## Runs of the loop -/

/-- A role of two machines with one policy. -/
def web (adjust : ℤ) (cooldown : Option ℤ) : Role ℕ :=
  ⟨"web", false, some running, 2, some 1, some 5,
    some [⟨⟨.change, adjust, 0, some "CPU > 80", 10, 1, cooldown⟩, none, none, none⟩], none, some 60, 0⟩

def busy : Inputs := ⟨100, fun _ => (true, some "90 > 80"), fun _ _ => none⟩

/-- The service is updated when the loop has written and has not yet scaled the role. -/
def timelyRun : List (Event ℕ) :=
  [.create 0 ⟨running, [web 1 none], 0⟩, .read [0], .evaluate busy, .write,
    .serviceUpdate 0 ⟨none, some [web 2 none], none⟩ true, .scale true 0,
    .progress 0 running fun r => (some running, r.cardinality, r.internal), .read [0],
    .evaluate { busy with now := 120 }]

/-- The service is updated after the loop has read it. -/
def staleRun : List (Event ℕ) :=
  [.create 0 ⟨running, [web 1 none], 0⟩, .read [0],
    .serviceUpdate 0 ⟨some running, some [web 2 none], some 0⟩ false, .evaluate busy, .write]

/-- A policy with a cooldown of its own asks for one machine more. -/
def cooldownRun : List (Event ℕ) :=
  [.create 0 ⟨running, [web 1 (some 30)], 0⟩, .read [0], .evaluate busy, .write]

/-- What is in the documents and what users have asked for. -/
def summary (s : State ℕ) : Option (List (String × RoleSettings)) × Option (List (String × RoleSettings)) :=
  ((s.pool 0).map (Service.settings 300), s.asked 0)

def webSettings (adjust : ℤ) (policyCooldown : Option ℤ) (cooldown : ℤ) : List (String × RoleSettings) :=
  [("web", ⟨[⟨.change, adjust, 0, some "CPU > 80", 10, 1, policyCooldown⟩], [], cooldown⟩)]

theorem values_timelyRun : (runChecked (step 300) (Timely 300) State.init timelyRun).map summary =
    some (some (webSettings 2 none 60), some (webSettings 2 none 60)) := by
  decide

theorem write_timelyRun : (runChecked (step 300) (Timely 300) State.init timelyRun).map (fun s =>
    (s.phase, decide (Timely 300 s .write), (step 300 s .write).isSome)) =
      some (.writing 2 (some 60), true, true) := by
  decide

theorem kept_timelyRun : ∃ s s' : State ℕ, Reach (step 300) (Timely 300) State.init s ∧
    (s.pool 0).map (Service.settings 300) = some (webSettings 2 none 60) ∧ s.phase = .writing 2 (some 60) ∧
      Kept 300 s ∧ step 300 s .write = some s' ∧ SamePlain 300 s s' := by
  obtain ⟨s, hs, hvalues⟩ := Option.map_eq_some_iff.mp values_timelyRun
  have hrun := reach_of_runChecked timelyRun hs
  have hwrites := write_timelyRun
  rw [hs, Option.map_some] at hwrites
  obtain ⟨hphase, htimely, hsome⟩ : s.phase = .writing 2 (some 60) ∧ Timely 300 s .write ∧
      (step 300 s .write).isSome = true := by
    simpa using hwrites
  obtain ⟨s', hs'⟩ := Option.isSome_iff_exists.mp hsome
  obtain ⟨hkept, hwrite⟩ := kept_of_reach 300 hrun
  exact ⟨s, s', hrun, congrArg Prod.fst hvalues, hphase, hkept, hs', hwrite s' htimely hs'⟩

theorem values_staleRun : (runEvents (step 300) State.init staleRun).map summary =
    some (some (webSettings 1 none 60), some (webSettings 2 none 60)) := by
  decide

theorem values_cooldownRun : (runEvents (step 300) State.init cooldownRun).map summary =
    some (some (webSettings 1 (some 30) 30), some (webSettings 1 (some 30) 60)) := by
  decide

/-- **Two ways to lose a setting.**  The loop writes a policy back that a user has changed meanwhile, and the
cooldown of a policy that asks for a change becomes the cooldown of the role. -/
theorem not_kept :
    (∃ s : State ℕ, Run (step 300) State.init s ∧
      (s.pool 0).map (Service.settings 300) = some (webSettings 1 none 60) ∧
      s.asked 0 = some (webSettings 2 none 60) ∧ ¬ Kept 300 s) ∧
    ∃ s : State ℕ, Run (step 300) State.init s ∧
      (s.pool 0).map (Service.settings 300) = some (webSettings 1 (some 30) 30) ∧
      s.asked 0 = some (webSettings 1 (some 30) 60) ∧ ¬ Kept 300 s := by
  have hlost : ∀ events a b, (runEvents (step 300) State.init events).map summary = some (some a, some b) →
      a ≠ b → ∃ s : State ℕ, Run (step 300) State.init s ∧
        (s.pool 0).map (Service.settings 300) = some a ∧ s.asked 0 = some b ∧ ¬ Kept 300 s := by
    intro events a b hvalues hne
    obtain ⟨s, hs, hvalues⟩ := Option.map_eq_some_iff.mp hvalues
    have hpool : (s.pool 0).map (Service.settings 300) = some a := congrArg Prod.fst hvalues
    have hasked : s.asked 0 = some b := congrArg Prod.snd hvalues
    refine ⟨s, reach_of_runEvents (P := fun _ => True) _ (fun _ _ => trivial) hs, hpool, hasked, fun hkept => ?_⟩
    obtain ⟨service, hservice, rfl⟩ := Option.map_eq_some_iff.mp hpool
    exact hne (Option.some.inj ((hkept 0 service hservice).symm.trans hasked))
  exact ⟨hlost _ _ _ values_staleRun (by decide), hlost _ _ _ values_cooldownRun (by decide)⟩

end ServiceAutoScaler
