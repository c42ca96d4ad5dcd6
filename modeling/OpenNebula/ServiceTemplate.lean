/-
# The check of service templates (`ServiceTemplate.validate`) and the limits of roles

A service template is checked when it is created, updated or instantiated: each role against the schema of its
type, and then the values of all the roles.  A role with policies has a smallest and a largest number of
virtual machines.

`calculate_new_cardinality` of a role applies a policy.  `staysWithin_iff` says for which accepted policies the
result is between both numbers and in the direction of the policy.

Conventions of the embedding:

* The types of the schema are the types of the fields; what the schema says about missing keys, enumerations,
  patterns and minimums is checked.
* The parsers of expressions, times and recurrences are parameters.
* The conversion of templates of old versions comes before the check.
-/
import OpenNebula.ServiceAutoScaler

namespace ServiceTemplate

open ServiceAutoScaler (AdjustType)

/-! ## Templates -/

/-- `type` of a role. -/
inductive RoleType where
  | vm
  | vr
  | other (text : String)
  deriving DecidableEq

/-- What policies of both kinds have. -/
structure Policy where
  type : Option AdjustType
  adjust : Option ℤ
  minAdjustStep : Option ℤ

structure ElasticityPolicy extends Policy where
  periodNumber : Option ℤ
  period : Option ℤ
  expression : Option String
  cooldown : Option ℤ

structure ScheduledPolicy extends Policy where
  startTime : Option String
  recurrence : Option String

/-- A role of a template; `nics` has the keys of each element of `NIC`, if it is an array. -/
structure RoleTemplate where
  name : Option String
  type : RoleType
  cardinality : Option ℤ
  templateId : Option ℤ
  parents : Option (List String)
  minVms : Option ℤ
  maxVms : Option ℤ
  cooldown : Option ℤ
  elasticityPolicies : Option (List ElasticityPolicy)
  scheduledPolicies : Option (List ScheduledPolicy)
  nics : Option (List (List String))

/-- `deployment`. -/
inductive Deployment where
  | none
  | straight
  deriving DecidableEq

structure Body where
  deployment : Deployment
  roles : List RoleTemplate

/-- `Validator::ParseException`: an error of the schema with its key, or the message of a value. -/
inductive ParseException where
  | missing (key : String)
  | minimum (key : String) (least : ℤ)
  | enum (key : String) (values : String)
  | regex (key : String) (pattern : String)
  | value (message : String)
  deriving DecidableEq

/-- The parsers: the reason why an expression fails, and whether a time and a recurrence can be read. -/
structure Parsers where
  expression : String → Option String
  time : String → Bool
  cron : String → Bool

/-! ## The schema -/

abbrev Check := Except ParseException Unit

/-- `raise`, if the condition holds. -/
def raiseIf (b : Bool) (e : ParseException) : Check := if b then .error e else .ok ()

/-- A mandatory key. -/
def required {α : Type} (key : String) : Option α → Check
  | none => .error (.missing key)
  | some _ => .ok ()

/-- An integer with a minimum. -/
def atLeast (key : String) (least : ℤ) : Option ℤ → Check
  | none => .ok ()
  | some value => if least ≤ value then .ok () else .error (.minimum key least)

/-- A line of the text consists of characters of the kind. -/
def hasLine (p : Char → Bool) (s : String) : Bool :=
  (s.toList.splitOn '\n').any fun line => !line.isEmpty && line.all p

/-- `\w`. -/
def isWord (c : Char) : Bool := c.isAlphanum || c = '_'

def matchesName : Option String → Check
  | none => .error (.missing "name")
  | some name => if hasLine isWord name then .ok () else .error (.regex "name" "/^\\w+$/")

def oneOfTypes : Option AdjustType → Check
  | none => .error (.missing "type")
  | some .other => .error (.enum "type" "CHANGE, CARDINALITY, PERCENTAGE_CHANGE")
  | some _ => .ok ()

/-- The keys of both kinds of policies. -/
def checkPolicy (policy : Policy) : Check := do
  oneOfTypes policy.type
  required "adjust" policy.adjust
  atLeast "min_adjust_step" 1 policy.minAdjustStep

def checkElasticityPolicy (policy : ElasticityPolicy) : Check := do
  checkPolicy policy.toPolicy
  atLeast "period_number" 0 policy.periodNumber
  atLeast "period" 0 policy.period
  required "expression" policy.expression
  atLeast "cooldown" 0 policy.cooldown

/-- `VM_ROLE_SCHEMA`. -/
def vmRoleSchema (role : RoleTemplate) : Check := do
  matchesName role.name
  atLeast "cardinality" 0 role.cardinality
  required "template_id" role.templateId
  atLeast "min_vms" 0 role.minVms
  atLeast "max_vms" 0 role.maxVms
  atLeast "cooldown" 0 role.cooldown
  (role.elasticityPolicies.getD []).forM checkElasticityPolicy
  (role.scheduledPolicies.getD []).forM fun policy => checkPolicy policy.toPolicy

/-- `VR_ROLE_SCHEMA`. -/
def vrRoleSchema (role : RoleTemplate) : Check := do
  matchesName role.name
  required "template_id" role.templateId
  atLeast "cardinality" 0 role.cardinality

/-- `validate_role`. -/
def validateRole (role : RoleTemplate) : Check :=
  match role.type with
  | .vm => vmRoleSchema role
  | .vr => vrRoleSchema role
  | .other text => .error (.value ("Unsupported role type \"" ++ text ++ "\""))

/-! ## The values -/

/-- The name and the number of virtual machines, after the defaults. -/
def RoleTemplate.named (role : RoleTemplate) : String := role.name.getD ""

def RoleTemplate.size (role : RoleTemplate) : ℤ := role.cardinality.getD 0

/-- The elements with their indexes, up to the first error. -/
def forEachWithIndex {α : Type} (check : ℕ → α → Check) (l : List α) : Check :=
  l.zipIdx.forM fun (a, index) => check index a

def elasticityValue (parsers : Parsers) (name : String) (index : ℕ) (policy : ElasticityPolicy) : Check :=
  let exp := policy.expression.getD ""
  if exp.isEmpty then
    .error (.value ("Role '" ++ name ++ "', elasticity policy #" ++ toString index ++
      " 'expression' cannot be empty"))
  else
    match parsers.expression exp with
    | none => .ok ()
    | some reason => .error (.value ("Role '" ++ name ++ "', elasticity policy #" ++ toString index ++
        " 'expression' parse error: " ++ reason))

def scheduledValue (parsers : Parsers) (name : String) (index : ℕ) (policy : ScheduledPolicy) : Check :=
  let fails (message : String) : Check :=
    .error (.value ("Role '" ++ name ++ "', scheduled policy #" ++ toString index ++ message))
  match policy.startTime, policy.recurrence with
  | some _, some _ => fails " must define 'start_time' or 'recurrence', but not both"
  | some startTime, none =>
    if hasLine Char.isDigit startTime || parsers.time startTime then .ok ()
    else fails (" 'start_time' is not a valid Time. Try with YYYY-MM-DD hh:mm:ss or " ++
      "0YYY-MM-DDThh:mm:ssZ")
  | none, some recurrence =>
    if parsers.cron recurrence then .ok () else fails " 'recurrence' is not a valid cron expression"
  | none, none => fails " needs to define either 'start_time' or 'recurrence'"

/-- `validate_vmvalues`. -/
def validateVmvalues (parsers : Parsers) (role : RoleTemplate) : Check := do
  raiseIf (role.minVms.any fun low => role.size < low)
    (.value ("Role '" ++ role.named ++ "' 'cardinality' must be greater than or equal to 'min_vms'"))
  raiseIf (role.maxVms.any fun high => high < role.size)
    (.value ("Role '" ++ role.named ++ "' 'cardinality' must be lower than or equal to 'max_vms'"))
  raiseIf ((!(role.elasticityPolicies.getD []).isEmpty || !(role.scheduledPolicies.getD []).isEmpty) &&
      (role.minVms.isNone || role.maxVms.isNone))
    (.value ("Role '" ++ role.named ++ "' with  'elasticity_policies' or " ++
      "'scheduled_policies'must define both 'min_vms' and 'max_vms'"))
  forEachWithIndex (elasticityValue parsers role.named) (role.elasticityPolicies.getD [])
  forEachWithIndex (scheduledValue parsers role.named) (role.scheduledPolicies.getD [])

/-- `validate_vrvalues`. -/
def validateVrvalues (role : RoleTemplate) : Check :=
  match role.nics with
  | none => .ok ()
  | some nics =>
    if 1 < role.size ∧ !nics.any fun nic => nic.any fun key => "FLOATING".toList.isPrefixOf key.toList then
      .error (.value ("Role '" ++ role.named ++ "' with 'cardinality' greather than one must define " ++
        "a floating IP"))
    else .ok ()

/-- The values of one role. -/
def validateValue (parsers : Parsers) (role : RoleTemplate) : Check :=
  match role.type with
  | .vm => validateVmvalues parsers role
  | .vr => validateVrvalues role
  | .other _ => .error (.value "Unsupported role type \"\"")

/-- `validate_values`. -/
def validateValues (parsers : Parsers) : List RoleTemplate → Check
  | [] => .ok ()
  | role :: roles => do
    raiseIf (roles.any fun other => role.named = other.named)
      (.value ("Role name '" ++ role.named ++ "' is repeated"))
    validateValue parsers role
    validateValues parsers roles

/-- `ServiceTemplate.validate`. -/
def validate (parsers : Parsers) (template : Body) : Check := do
  template.roles.forM validateRole
  validateValues parsers template.roles

/-! ## Policies -/

/-- The policies of a role. -/
def RoleTemplate.policies (role : RoleTemplate) : List Policy :=
  (role.elasticityPolicies.getD []).map ElasticityPolicy.toPolicy ++
    (role.scheduledPolicies.getD []).map ScheduledPolicy.toPolicy

/-- The role of a service with some virtual machines, as far as its limits go. -/
def RoleTemplate.current (role : RoleTemplate) (cardinality : ℤ) : ServiceAutoScaler.Role Unit where
  name := role.named
  vr := false
  state := some ServiceAutoScaler.running
  cardinality := cardinality
  minVms := role.minVms
  maxVms := role.maxVms
  elasticityPolicies := none
  scheduledPolicies := none
  cooldown := role.cooldown
  internal := ()

/-- `calculate_new_cardinality` for a policy. -/
def RoleTemplate.newCardinality (role : RoleTemplate) (cardinality : ℤ) (policy : Policy) : ℤ :=
  (role.current cardinality).calculateNewCardinality (policy.type.getD .other) (policy.adjust.getD 0)
    (policy.minAdjustStep.getD 0)

/-! ## Checks that pass -/

section Check

variable {α : Type} {l : List α} {f : α → Check} {c c' : Check}

theorem bind_eq_ok : (c >>= fun _ => c') = .ok () ↔ c = .ok () ∧ c' = .ok () := by
  cases c with
  | error e => exact iff_of_false (by simp [bind, Except.bind]) fun h => absurd h.1 (by simp)
  | ok u => exact (and_iff_right rfl).symm

theorem forM_eq_ok : l.forM f = .ok () ↔ ∀ a ∈ l, f a = .ok () := by
  induction l with
  | nil => exact iff_of_true rfl fun _ ha => absurd ha List.not_mem_nil
  | cons a l ih =>
    change (f a >>= fun _ => l.forM f) = .ok () ↔ _
    rw [bind_eq_ok, ih, List.forall_mem_cons]

theorem required_eq_ok {key : String} {o : Option α} : required key o = .ok () ↔ o.isSome = true := by
  cases o with
  | none => exact iff_of_false (by simp [required]) (by simp)
  | some a => exact iff_of_true rfl rfl

theorem atLeast_eq_ok {key : String} {least : ℤ} {o : Option ℤ} :
    atLeast key least o = .ok () ↔ ∀ value, o = some value → least ≤ value := by
  cases o with
  | none => exact iff_of_true rfl fun _ h => absurd h (by simp)
  | some v =>
    rw [atLeast]
    split_ifs with hle
    · exact iff_of_true rfl fun value h => by rw [← Option.some.inj h]; exact hle
    · exact iff_of_false (by simp) fun h => hle (h v rfl)

theorem oneOfTypes_eq_ok {type : Option AdjustType} :
    oneOfTypes type = .ok () ↔ ∃ t, type = some t ∧ t ≠ .other := by
  cases type with
  | none => exact iff_of_false (by simp [oneOfTypes]) (by simp)
  | some t => cases t <;> simp [oneOfTypes]

theorem raiseIf_eq_ok {b : Bool} {e : ParseException} : raiseIf b e = .ok () ↔ b = false := by
  cases b with
  | true => exact iff_of_false (by simp [raiseIf]) (by simp)
  | false => exact iff_of_true rfl rfl

end Check

/-- An accepted policy: its type is one of the three, and it has a number and no step or a positive one. -/
structure Policy.Accepted (policy : Policy) : Prop where
  type : ∃ t, policy.type = some t ∧ t ≠ .other
  adjust : policy.adjust.isSome = true
  step : ∀ step, policy.minAdjustStep = some step → 1 ≤ step

theorem accepted_of_checkPolicy {policy : Policy} (h : checkPolicy policy = .ok ()) : policy.Accepted := by
  unfold checkPolicy at h
  rw [bind_eq_ok, bind_eq_ok, oneOfTypes_eq_ok, required_eq_ok, atLeast_eq_ok] at h
  exact ⟨h.1, h.2.1, h.2.2⟩

section Validate

variable {parsers : Parsers} {template : Body} {role : RoleTemplate} {roles : List RoleTemplate}

/-- What the check of the values says about each role. -/
theorem validateValues_eq_ok (h : validateValues parsers roles = .ok ()) :
    (roles.map RoleTemplate.named).Nodup ∧
      ∀ role ∈ roles, role.type = .vm → validateVmvalues parsers role = .ok () := by
  induction roles with
  | nil => exact ⟨List.nodup_nil, fun _ hrole => absurd hrole List.not_mem_nil⟩
  | cons first roles ih =>
    rw [validateValues, bind_eq_ok, raiseIf_eq_ok, bind_eq_ok] at h
    obtain ⟨hname, hvalue, hrest⟩ := h
    obtain ⟨hnodup, hvalues⟩ := ih hrest
    refine ⟨?_, ?_⟩
    · rw [List.map_cons, List.nodup_cons]
      refine ⟨fun hmem => ?_, hnodup⟩
      obtain ⟨other, hother, hsame⟩ := List.mem_map.mp hmem
      rw [List.any_eq_false] at hname
      exact hname other hother (by simpa using hsame.symm)
    · intro role hrole hvm
      rcases List.mem_cons.mp hrole with rfl | hrole
      · rw [validateValue, hvm] at hvalue
        exact hvalue
      · exact hvalues role hrole hvm

theorem validate_eq_ok (h : validate parsers template = .ok ()) :
    (∀ role ∈ template.roles, validateRole role = .ok ()) ∧
      (template.roles.map RoleTemplate.named).Nodup ∧
      ∀ role ∈ template.roles, role.type = .vm → validateVmvalues parsers role = .ok () := by
  rw [validate, bind_eq_ok, forM_eq_ok] at h
  exact ⟨h.1, validateValues_eq_ok h.2⟩

/-- **What an accepted role of virtual machines with a policy has**: both limits, in this order, and policies
that are accepted. -/
theorem limits_of_validate (h : validate parsers template = .ok ()) (hrole : role ∈ template.roles)
    (hvm : role.type = .vm) {policy : Policy} (hpolicy : policy ∈ role.policies) :
    policy.Accepted ∧ ∃ low high, role.minVms = some low ∧ role.maxVms = some high ∧ 0 ≤ low ∧
      low ≤ high := by
  obtain ⟨hschema, -, hvalues⟩ := validate_eq_ok h
  have hrole' := hschema role hrole
  have hvalue := hvalues role hrole hvm
  rw [validateRole, hvm] at hrole'
  dsimp only at hrole'
  rw [vmRoleSchema, bind_eq_ok, bind_eq_ok, bind_eq_ok, bind_eq_ok, bind_eq_ok, bind_eq_ok, bind_eq_ok,
    forM_eq_ok, forM_eq_ok, atLeast_eq_ok (o := role.minVms)] at hrole'
  obtain ⟨-, -, -, hlow, -, -, helasticity, hscheduled⟩ := hrole'
  rw [validateVmvalues, bind_eq_ok, raiseIf_eq_ok, bind_eq_ok, raiseIf_eq_ok, bind_eq_ok, raiseIf_eq_ok] at hvalue
  obtain ⟨hmin, hmax, hboth, -⟩ := hvalue
  refine ⟨?_, ?_⟩
  · rcases List.mem_append.mp hpolicy with hmem | hmem
    · obtain ⟨p, hp, rfl⟩ := List.mem_map.mp hmem
      have hone := helasticity p hp
      rw [checkElasticityPolicy, bind_eq_ok] at hone
      exact accepted_of_checkPolicy hone.1
    · obtain ⟨p, hp, rfl⟩ := List.mem_map.mp hmem
      exact accepted_of_checkPolicy (hscheduled p hp)
  · have hsome : (!(role.elasticityPolicies.getD []).isEmpty ||
        !(role.scheduledPolicies.getD []).isEmpty) = true := by
      rcases List.mem_append.mp hpolicy with hmem | hmem
      · obtain ⟨p, hp, -⟩ := List.mem_map.mp hmem
        simp [List.ne_nil_of_mem hp]
      · obtain ⟨p, hp, -⟩ := List.mem_map.mp hmem
        simp [List.ne_nil_of_mem hp]
    rw [hsome, Bool.true_and, Bool.or_eq_false_iff] at hboth
    cases hl : role.minVms with
    | none => rw [hl] at hboth; exact absurd hboth.1 (by simp)
    | some low =>
      cases hh : role.maxVms with
      | none => rw [hh] at hboth; exact absurd hboth.2 (by simp)
      | some high =>
        rw [hl] at hmin
        rw [hh] at hmax
        have hle : ¬ role.size < low := by simpa using hmin
        have hge : ¬ high < role.size := by simpa using hmax
        exact ⟨low, high, rfl, rfl, hlow low hl, by omega⟩

end Validate

/-! ## New numbers of virtual machines -/

/-- **A policy stays within the limits of a role**: the new number is between them, so that the scale action
is accepted, and a policy of change does not go against its sign. -/
def StaysWithin (role : RoleTemplate) (cardinality : ℤ) (policy : Policy) : Prop :=
  let new := role.newCardinality cardinality policy
  (role.minVms.getD 0 ≤ new ∧ new ≤ role.maxVms.getD 0) ∧
    (role.current cardinality).update new false = true ∧
    (policy.type ≠ some .cardinality → 0 ≤ (new - cardinality) * policy.adjust.getD 0)

/-- **The policies that leave the limits**: a percentage of no virtual machines that should add some, a
percentage of 0 that takes some below the minimum, and a number below the minimum that is not negative. -/
def Leaves (role : RoleTemplate) (cardinality : ℤ) (policy : Policy) : Prop :=
  let low := role.minVms.getD 0
  let adjust := policy.adjust.getD 0
  (policy.type = some .percentageChange ∧ 0 < adjust ∧ cardinality = 0) ∨
  (policy.type = some .percentageChange ∧ adjust = 0 ∧
    cardinality - max 1 (policy.minAdjustStep.getD 0) < low) ∨
  (policy.type = some .cardinality ∧ 0 ≤ adjust ∧ adjust < low)

/-- The change of a percentage, in rational arithmetic. -/
def percentageChange (cardinality adjust minAdjustStep : ℤ) : ℤ :=
  let change : ℚ := (cardinality * adjust : ℚ) / 100
  let sign : ℤ := if 0 < change then 1 else -1
  let size : ℤ := if |change| < 1 then 1 else ⌊|change|⌋
  sign * max size minAdjustStep

section Scaling

variable {role : RoleTemplate} {cardinality low high adjust step : ℤ} {policy : Policy}

/-- The percentage in integers is the one in rational numbers. -/
theorem percentageChange_eq (cardinality adjust step : ℤ) :
    percentageChange cardinality adjust step =
      (if 0 < cardinality * adjust then 1 else -1) *
        max (if |cardinality * adjust| < 100 then 1 else |cardinality * adjust| / 100) step := by
  have hpos : (0 : ℚ) < (cardinality * adjust : ℚ) / 100 ↔ 0 < cardinality * adjust := by
    rw [div_pos_iff_of_pos_right (by norm_num)]
    exact_mod_cast Iff.rfl
  have habs : |(cardinality * adjust : ℚ) / 100| = (|cardinality * adjust| : ℤ) / (100 : ℕ) := by
    rw [abs_div, Int.cast_abs]
    push_cast
    norm_num
  have hsmall : |(cardinality * adjust : ℚ) / 100| < 1 ↔ |cardinality * adjust| < 100 := by
    rw [habs, div_lt_one (by norm_num)]
    exact_mod_cast Iff.rfl
  have hfloor : ⌊|(cardinality * adjust : ℚ) / 100|⌋ = |cardinality * adjust| / 100 := by
    rw [habs, Rat.floor_intCast_div_natCast]
    rfl
  unfold percentageChange
  dsimp only
  rw [if_congr hpos rfl rfl, if_congr hsmall rfl rfl, hfloor]

/-- The clipping of a new number, which looks at the sign of `adjust`. -/
def clip (adjust low high n : ℤ) : ℤ :=
  if 0 < adjust then min n high else if adjust < 0 then max n low else n

theorem clip_of_pos (h : 0 < adjust) (low high n : ℤ) : clip adjust low high n = min n high := if_pos h

theorem clip_of_neg (h : adjust < 0) (low high n : ℤ) : clip adjust low high n = max n low := by
  rw [clip, if_neg (by omega), if_pos h]

theorem clip_zero (low high n : ℤ) : clip 0 low high n = n := by
  rw [clip, if_neg (by omega), if_neg (by omega)]

/-- The new number, with the clipping. -/
def clipped (type : AdjustType) (adjust step low high cardinality : ℤ) : ℤ :=
  match type with
  | .change => clip adjust low high (cardinality + adjust)
  | .percentageChange => clip adjust low high (cardinality + percentageChange cardinality adjust step)
  | .cardinality => clip adjust low high adjust
  | .other => cardinality

/-- The new number of a role that is within its limits. -/
theorem newCardinality_eq (hlow : role.minVms = some low) (hhigh : role.maxVms = some high)
    (hc : cardinality ≤ high) {type : AdjustType} (htype : policy.type = some type)
    (hadjust : policy.adjust = some adjust) :
    role.newCardinality cardinality policy =
      clipped type adjust (policy.minAdjustStep.getD 0) low high cardinality := by
  have hclip : ∀ n, (if 0 < adjust then (if max cardinality high < n then max cardinality high else n)
      else if adjust < 0 then (if n < low then low else n) else n) = clip adjust low high n := by
    intro n
    rw [clip, max_eq_right hc]
    refine if_congr Iff.rfl ?_ (if_congr Iff.rfl ?_ rfl)
    · split_ifs <;> omega
    · split_ifs <;> omega
  unfold RoleTemplate.newCardinality RoleTemplate.current ServiceAutoScaler.Role.calculateNewCardinality
  dsimp only
  rw [htype, hadjust, hlow, hhigh, Option.getD_some, Option.getD_some, Option.getD_some, Option.getD_some]
  cases type with
  | change => exact hclip _
  | percentageChange =>
    dsimp only
    rw [hclip, clipped, percentageChange_eq]
  | cardinality => exact hclip _
  | other => rfl

/-- The scale action refuses what is not within the limits. -/
theorem update_iff (hlow : role.minVms = some low) (hhigh : role.maxVms = some high) (n : ℤ) :
    (role.current cardinality).update n false = true ↔ low ≤ n ∧ n ≤ high := by
  unfold RoleTemplate.current ServiceAutoScaler.Role.update
  rw [hlow, hhigh]
  simp

/-- The size of a percentage is at least 1. -/
theorem percentageChange_of_pos (h : 0 < cardinality * adjust) (step : ℤ) :
    1 ≤ percentageChange cardinality adjust step := by
  rw [percentageChange_eq, if_pos h, one_mul, abs_of_pos h]
  split_ifs with hsmall
  · exact le_max_left 1 step
  · exact le_max_of_le_left (by omega)

theorem percentageChange_of_nonpos (h : cardinality * adjust ≤ 0) (step : ℤ) :
    percentageChange cardinality adjust step ≤ -1 := by
  have hsize : 1 ≤ max (if |cardinality * adjust| < 100 then 1 else |cardinality * adjust| / 100) step := by
    split_ifs with hsmall
    · exact le_max_left 1 step
    · exact le_max_of_le_left (by omega)
  rw [percentageChange_eq, if_neg (by omega)]
  omega

theorem percentageChange_of_zero (h : cardinality * adjust = 0) (step : ℤ) :
    percentageChange cardinality adjust step = -max 1 step := by
  rw [percentageChange_eq, if_neg (by omega), h, abs_zero, if_pos (by norm_num)]
  omega

/-- The new numbers that stay within the limits. -/
theorem clipped_iff {type : AdjustType} (htype : type ≠ .other) (hnonneg : 0 ≤ low)
    (hlow : low ≤ cardinality) (hhigh : cardinality ≤ high) :
    ((low ≤ clipped type adjust step low high cardinality ∧
        clipped type adjust step low high cardinality ≤ high) ∧
      (type ≠ .cardinality → 0 ≤ (clipped type adjust step low high cardinality - cardinality) * adjust)) ↔
    ¬ (type = .percentageChange ∧ 0 < adjust ∧ cardinality = 0 ∨
      type = .percentageChange ∧ adjust = 0 ∧ cardinality - max 1 step < low ∨
      type = .cardinality ∧ 0 ≤ adjust ∧ adjust < low) := by
  have hsame : ∀ n : ℤ, 0 ≤ adjust → cardinality ≤ n → 0 ≤ (n - cardinality) * adjust := fun n hadjust hn =>
    mul_nonneg (by omega) hadjust
  have hsame' : ∀ n : ℤ, adjust ≤ 0 → n ≤ cardinality → 0 ≤ (n - cardinality) * adjust := fun n hadjust hn =>
    mul_nonneg_of_nonpos_of_nonpos (by omega) hadjust
  cases type with
  | other => exact absurd rfl htype
  | change =>
    refine iff_of_true ?_ (by simp)
    rw [clipped]
    rcases lt_trichotomy adjust 0 with hadjust | hadjust | hadjust
    · rw [clip_of_neg hadjust]
      exact ⟨⟨by omega, by omega⟩, fun _ => hsame' _ (by omega) (by omega)⟩
    · rw [hadjust, clip_zero]
      exact ⟨⟨by omega, by omega⟩, fun _ => by omega⟩
    · rw [clip_of_pos hadjust]
      exact ⟨⟨by omega, by omega⟩, fun _ => hsame _ (by omega) (by omega)⟩
  | cardinality =>
    rw [clipped]
    simp only [reduceCtorEq, false_and, false_or, true_and, ne_eq, not_true, false_imp_iff, and_true]
    rcases lt_trichotomy adjust 0 with hadjust | hadjust | hadjust
    · rw [clip_of_neg hadjust]
      omega
    · rw [hadjust, clip_zero]
      omega
    · rw [clip_of_pos hadjust]
      omega
  | percentageChange =>
    rw [clipped]
    simp only [reduceCtorEq, false_and, or_false, true_and, ne_eq, not_false_iff, true_imp_iff]
    rcases lt_trichotomy adjust 0 with hadjust | hadjust | hadjust
    · have hchange := percentageChange_of_nonpos (mul_nonpos_of_nonneg_of_nonpos
        (hnonneg.trans hlow) hadjust.le) step
      rw [clip_of_neg hadjust]
      refine iff_of_true ⟨⟨by omega, by omega⟩, hsame' _ (by omega) (by omega)⟩ (by omega)
    · have hchange := percentageChange_of_zero (show cardinality * adjust = 0 by rw [hadjust, mul_zero]) step
      rw [hadjust] at hchange ⊢
      rw [clip_zero, hchange, mul_zero]
      omega
    · rw [clip_of_pos hadjust]
      rcases (hnonneg.trans hlow).eq_or_lt with hzero | hpos
      · have hchange := percentageChange_of_nonpos (show cardinality * adjust ≤ 0 by
          rw [← hzero, zero_mul]) step
        refine iff_of_false (fun h => ?_) (by omega)
        have hbound := h.1.1
        omega
      · have hchange := percentageChange_of_pos (mul_pos hpos hadjust) step
        refine iff_of_true ⟨⟨by omega, by omega⟩, hsame _ (by omega) (by omega)⟩ (by omega)

end Scaling

/-- **A policy of an accepted template stays within the limits of its role** if and only if it is none of those
that leave them. -/
theorem staysWithin_iff (parsers : Parsers) (template : Body) (role : RoleTemplate) (policy : Policy)
    (cardinality : ℤ) (h : validate parsers template = .ok ()) (hrole : role ∈ template.roles)
    (hvm : role.type = .vm) (hpolicy : policy ∈ role.policies)
    (hlow : role.minVms.getD 0 ≤ cardinality) (hhigh : cardinality ≤ role.maxVms.getD 0) :
    StaysWithin role cardinality policy ↔ ¬ Leaves role cardinality policy := by
  obtain ⟨haccepted, low, high, hmin, hmax, hnonneg, -⟩ := limits_of_validate h hrole hvm hpolicy
  obtain ⟨type, htype, hother⟩ := haccepted.type
  obtain ⟨adjust, hadjust⟩ := Option.isSome_iff_exists.mp haccepted.adjust
  rw [hmin, Option.getD_some] at hlow
  rw [hmax, Option.getD_some] at hhigh
  unfold StaysWithin Leaves
  dsimp only
  rw [newCardinality_eq hmin hmax hhigh htype hadjust, update_iff hmin hmax, hmin, hmax, htype, hadjust,
    Option.getD_some, Option.getD_some, Option.getD_some, ← and_assoc, and_self_iff]
  simp only [Option.some.injEq, ne_eq]
  exact clipped_iff hother hnonneg hlow hhigh

/-! ## Policies of a small role -/

/-- From 1 to 5 virtual machines, or from none to 5, with one policy. -/
def smallRole (low : ℤ) (type : AdjustType) (adjust : ℤ) : RoleTemplate where
  name := some "web"
  type := .vm
  cardinality := some low
  templateId := some 0
  parents := none
  minVms := some low
  maxVms := some 5
  cooldown := none
  elasticityPolicies := some [⟨⟨some type, some adjust, none⟩, some 3, some 10, some "CPU > 90", none⟩]
  scheduledPolicies := none
  nics := none

/-- Every expression is accepted. -/
def anyParsers : Parsers := ⟨fun _ => none, fun _ => true, fun _ => true⟩

def smallPolicy (type : AdjustType) (adjust : ℤ) : Policy := ⟨some type, some adjust, none⟩

/-- Half as many virtual machines again. -/
theorem staysWithin_half : StaysWithin (smallRole 1 .percentageChange 50) 2 (smallPolicy .percentageChange 50) :=
  (staysWithin_iff anyParsers ⟨.none, [smallRole 1 .percentageChange 50]⟩ _ _ 2
    (by decide) (List.mem_singleton.mpr rfl) rfl
    (List.mem_singleton.mpr rfl) (by decide) (by decide)).mpr (by unfold Leaves; decide)

/-- **Three accepted policies that leave the limits**: half of no virtual machines again, a percentage of 0 at
the minimum, and the number 0 below the minimum. -/
theorem not_staysWithin :
    (validate anyParsers ⟨.none, [smallRole 0 .percentageChange 50]⟩ = .ok () ∧
      ¬ StaysWithin (smallRole 0 .percentageChange 50) 0 (smallPolicy .percentageChange 50)) ∧
    (validate anyParsers ⟨.none, [smallRole 1 .percentageChange 0]⟩ = .ok () ∧
      ¬ StaysWithin (smallRole 1 .percentageChange 0) 1 (smallPolicy .percentageChange 0)) ∧
    (validate anyParsers ⟨.none, [smallRole 1 .cardinality 0]⟩ = .ok () ∧
      ¬ StaysWithin (smallRole 1 .cardinality 0) 2 (smallPolicy .cardinality 0)) := by
  refine ⟨⟨by decide, fun h => ?_⟩, ⟨by decide, fun h => ?_⟩,
    by decide, fun h => ?_⟩
  · exact absurd h.1.1 (by decide)
  · exact absurd h.1.1 (by decide)
  · exact absurd h.1.1 (by decide)

end ServiceTemplate
