/-
# The straight strategy of OneFlow (`strategy/straight.rb`)

A service with the straight strategy deploys a role when all its parents are running, and it shuts a role down
when no other role needs it.  Both functions expect that the roles and their parents are a directed acyclic
graph, which the check of the templates does not look at.

`straight_iff` says for which templates some role can always be deployed, and some role can always be shut down:
for those whose parents exist and have no cycle.  `exists_minimal` and `exists_next_of_cycle` are the two
directions for any relation.
-/
import OpenNebula.ServiceTemplate

open Relation

namespace Straight

/-! ## Relations without cycles -/

section Cycles

variable {α : Type*} {r : α → α → Prop} {a b : α}

/-- A finite set has an element without predecessors in it, if there is no cycle. -/
theorem exists_minimal (h : ∀ a, ¬ TransGen r a a) {s : Set α} (hfinite : s.Finite) (hs : s.Nonempty) :
    ∃ a ∈ s, ∀ b ∈ s, ¬ r b a := by
  have hs' : Finite s := hfinite
  have htrans : IsTrans s fun b a => TransGen r b a := ⟨fun _ _ _ hab hbc => hab.trans hbc⟩
  have hirrefl : Std.Irrefl fun b a : s => TransGen r b.1 a.1 := ⟨fun a => h a⟩
  have hwf : WellFounded fun b a : s => TransGen r b.1 a.1 := Finite.wellFounded_of_trans_of_irrefl _
  obtain ⟨x, hx⟩ := hs
  obtain ⟨a, -, hmin⟩ := hwf.has_min Set.univ ⟨⟨x, hx⟩, trivial⟩
  exact ⟨a, a.2, fun b hb hba => hmin ⟨b, hb⟩ trivial (TransGen.single hba)⟩

/-- And one without successors. -/
theorem exists_maximal (h : ∀ a, ¬ TransGen r a a) {s : Set α} (hfinite : s.Finite) (hs : s.Nonempty) :
    ∃ a ∈ s, ∀ b ∈ s, ¬ r a b :=
  exists_minimal (r := Function.swap r) (fun a hcycle => h a (transGen_swap.mp hcycle)) hfinite hs

/-- The elements on the cycles through an element. -/
def OnCycle (r : α → α → Prop) (a b : α) : Prop := TransGen r a b ∧ TransGen r b a

theorem onCycle_self (h : TransGen r a a) : OnCycle r a a := ⟨h, h⟩

theorem OnCycle.exists_next (h : OnCycle r a b) : ∃ c, OnCycle r a c ∧ r b c := by
  obtain ⟨c, hbc, hca⟩ := TransGen.head'_iff.mp h.2
  refine ⟨c, ⟨h.1.tail hbc, ?_⟩, hbc⟩
  exact TransGen.trans_right hca (h.1.trans h.2)

theorem OnCycle.exists_previous (h : OnCycle r a b) : ∃ c, OnCycle r a c ∧ r c b := by
  obtain ⟨c, hac, hcb⟩ := TransGen.tail'_iff.mp h.1
  refine ⟨c, ⟨?_, TransGen.head hcb h.2⟩, hcb⟩
  exact TransGen.trans_left (h.1.trans h.2) hac

end Cycles

/-! ## Roles -/

/-- `Role::STATE`. -/
inductive RoleState where
  | pending | deploying | running | undeploying | warning | done | failedUndeploying | failedDeploying
  | scaling | failedScaling | cooldown | hold
  deriving DecidableEq

structure Role where
  name : String
  parents : List String
  state : RoleState
  deriving DecidableEq

/-- `Straight#roles_deploy`. -/
def rolesDeploy (roles : List Role) : List Role :=
  let runningRoles := roles.filter fun role => role.state = .running
  roles.filter fun role => role.state = .pending &&
    role.parents.all fun parent => runningRoles.any fun other => other.name = parent

/-- `Straight#roles_shutdown`. -/
def rolesShutdown (roles : List Role) : List Role :=
  let runningRoles := roles.filter fun role =>
    role.state ∉ [RoleState.undeploying, .done, .failedUndeploying]
  let parents := (roles.filter fun role => role.state ≠ .done).flatMap Role.parents
  runningRoles.filter fun role => role.name ∉ parents

/-- What `undeploy_action` does with the roles. -/
inductive Undeploy where
  | delete
  | shutdown (roles : List Role)

/-- `undeploy_action`: a service without roles to shut down is deleted. -/
def undeployAction (roles : List Role) : Undeploy :=
  if (rolesShutdown roles).isEmpty then .delete else .shutdown (rolesShutdown roles)

open ServiceTemplate

/-- `Role#parents`. -/
def parentsOf (role : RoleTemplate) : List String := role.parents.getD []

/-- The roles of a service: some names have one state, and all the others have another one. -/
def rolesWith (template : Body) (names : List String) (state other : RoleState) : List Role :=
  template.roles.map fun role =>
    ⟨role.named, parentsOf role, if role.named ∈ names then state else other⟩

/-! ## Services that get stuck -/

/-- **Some role can be deployed** whenever some roles are running and all the others, at least one, are
pending. -/
def CanDeploy (template : Body) : Prop :=
  ∀ names, (∃ role ∈ template.roles, role.named ∉ names) →
    rolesDeploy (rolesWith template names .running .pending) ≠ []

/-- **Some role can be shut down** whenever some roles are done and all the others, at least one, are
running. -/
def CanShutdown (template : Body) : Prop :=
  ∀ names, (∃ role ∈ template.roles, role.named ∉ names) →
    rolesShutdown (rolesWith template names .done .running) ≠ []

/-- The first name is a parent of the second one. -/
def IsParent (template : Body) (parent name : String) : Prop :=
  ∃ role ∈ template.roles, role.named = name ∧ parent ∈ parentsOf role

/-- Every parent is a role. -/
def ParentsExist (template : Body) : Prop :=
  ∀ role ∈ template.roles, ∀ parent ∈ parentsOf role, ∃ other ∈ template.roles, other.named = parent

/-- No role is an ancestor of itself. -/
def Acyclic (template : Body) : Prop := ∀ name, ¬ TransGen (IsParent template) name name

section Stuck

variable {template : Body} {names : List String} {role : RoleTemplate}

/-- The states of the roles. -/
theorem mem_rolesWith {state other : RoleState} {r : Role} : r ∈ rolesWith template names state other ↔
    ∃ role ∈ template.roles, r = ⟨role.named, parentsOf role, if role.named ∈ names then state else other⟩ := by
  unfold rolesWith
  rw [List.mem_map]
  exact exists_congr fun _ => and_congr_right fun _ => eq_comm

/-- A role can be deployed if it is pending and its parents are running roles. -/
theorem rolesDeploy_ne_nil_iff : rolesDeploy (rolesWith template names .running .pending) ≠ [] ↔
    ∃ role ∈ template.roles, role.named ∉ names ∧ ∀ parent ∈ parentsOf role,
      parent ∈ names ∧ ∃ other ∈ template.roles, other.named = parent := by
  have hrunning : ∀ parent, ((rolesWith template names .running .pending).filter fun role =>
      role.state = .running).any (fun other => other.name = parent) = true ↔
      parent ∈ names ∧ ∃ other ∈ template.roles, other.named = parent := by
    intro parent
    rw [List.any_eq_true]
    constructor
    · rintro ⟨r, hr, hname⟩
      obtain ⟨hmem, hstate⟩ := List.mem_filter.mp hr
      obtain ⟨other, hother, rfl⟩ := mem_rolesWith.mp hmem
      rw [decide_eq_true_eq] at hstate hname
      dsimp only at hstate hname
      split_ifs at hstate with hnames
      exact ⟨hname ▸ hnames, other, hother, hname⟩
    · rintro ⟨hnames, other, hother, rfl⟩
      refine ⟨⟨other.named, parentsOf other, .running⟩, List.mem_filter.mpr ⟨?_, by simp⟩, by simp⟩
      exact mem_rolesWith.mpr ⟨other, hother, by rw [if_pos hnames]⟩
  unfold rolesDeploy
  rw [← List.length_pos_iff, List.length_pos_iff_exists_mem]
  constructor
  · rintro ⟨r, hr⟩
    obtain ⟨hmem, hdeploy⟩ := List.mem_filter.mp hr
    obtain ⟨role, hrole, rfl⟩ := mem_rolesWith.mp hmem
    rw [Bool.and_eq_true, decide_eq_true_eq, List.all_eq_true] at hdeploy
    obtain ⟨hstate, hparents⟩ := hdeploy
    refine ⟨role, hrole, fun hnames => ?_, fun parent hparent => (hrunning parent).mp (hparents parent hparent)⟩
    rw [if_pos hnames] at hstate
    exact absurd hstate (by simp)
  · rintro ⟨role, hrole, hnames, hparents⟩
    refine ⟨⟨role.named, parentsOf role, .pending⟩, List.mem_filter.mpr ⟨?_, ?_⟩⟩
    · exact mem_rolesWith.mpr ⟨role, hrole, by rw [if_neg hnames]⟩
    · rw [Bool.and_eq_true, decide_eq_true_eq, List.all_eq_true]
      exact ⟨rfl, fun parent hparent => (hrunning parent).mpr (hparents parent hparent)⟩

/-- A role can be shut down if it is running and no running role has it as a parent. -/
theorem rolesShutdown_ne_nil_iff : rolesShutdown (rolesWith template names .done .running) ≠ [] ↔
    ∃ role ∈ template.roles, role.named ∉ names ∧ ∀ other ∈ template.roles, other.named ∉ names →
      role.named ∉ parentsOf other := by
  have hparents : ∀ name, name ∈ ((rolesWith template names .done .running).filter fun role =>
      role.state ≠ .done).flatMap Role.parents ↔
      ∃ other ∈ template.roles, other.named ∉ names ∧ name ∈ parentsOf other := by
    intro name
    rw [List.mem_flatMap]
    constructor
    · rintro ⟨r, hr, hname⟩
      obtain ⟨hmem, hstate⟩ := List.mem_filter.mp hr
      obtain ⟨other, hother, rfl⟩ := mem_rolesWith.mp hmem
      refine ⟨other, hother, fun hnames => ?_, hname⟩
      rw [if_pos hnames] at hstate
      exact absurd hstate (by simp)
    · rintro ⟨other, hother, hnames, hname⟩
      refine ⟨⟨other.named, parentsOf other, .running⟩, List.mem_filter.mpr ⟨?_, by simp⟩, hname⟩
      exact mem_rolesWith.mpr ⟨other, hother, by rw [if_neg hnames]⟩
  unfold rolesShutdown
  rw [← List.length_pos_iff, List.length_pos_iff_exists_mem]
  constructor
  · rintro ⟨r, hr⟩
    obtain ⟨hmem, hfree⟩ := List.mem_filter.mp hr
    obtain ⟨hmem, hstate⟩ := List.mem_filter.mp hmem
    obtain ⟨role, hrole, rfl⟩ := mem_rolesWith.mp hmem
    rw [decide_eq_true_eq, hparents] at hfree
    refine ⟨role, hrole, fun hnames => ?_, fun other hother hout hin => hfree ⟨other, hother, hout, hin⟩⟩
    rw [if_pos hnames] at hstate
    exact absurd hstate (by simp)
  · rintro ⟨role, hrole, hnames, hfree⟩
    refine ⟨⟨role.named, parentsOf role, .running⟩, List.mem_filter.mpr ⟨List.mem_filter.mpr ⟨?_, ?_⟩, ?_⟩⟩
    · exact mem_rolesWith.mpr ⟨role, hrole, by rw [if_neg hnames]⟩
    · simp
    · rw [decide_eq_true_eq, hparents]
      rintro ⟨other, hother, hout, hin⟩
      exact hfree other hother hout hin

/-- The names of the roles. -/
theorem finite_names (p : String → Prop) : {name | (∃ role ∈ template.roles, role.named = name) ∧ p name}.Finite := by
  refine Set.Finite.subset (List.finite_toSet (template.roles.map RoleTemplate.named)) ?_
  rintro name ⟨⟨role, hrole, hname⟩, -⟩
  exact List.mem_map.mpr ⟨role, hrole, hname⟩

/-- A role on a cycle is a role of the template. -/
theorem role_of_onCycle {a b : String} (h : OnCycle (IsParent template) a b) :
    ∃ role ∈ template.roles, role.named = b := by
  obtain ⟨c, -, role, hrole, hname, -⟩ := h.exists_previous
  exact ⟨role, hrole, hname⟩

/-- The names of the roles that are not on a cycle. -/
theorem exists_names (template : Body) (p : String → Prop) :
    ∃ names : List String, ∀ role ∈ template.roles, role.named ∈ names ↔ ¬ p role.named := by
  classical
  refine ⟨(template.roles.map RoleTemplate.named).filter fun name => ¬ p name, fun role hrole => ?_⟩
  rw [List.mem_filter, decide_eq_true_eq]
  exact and_iff_right (List.mem_map_of_mem hrole)

/-- **Some role can always be shut down if and only if no role is its own ancestor.** -/
theorem canShutdown_iff : CanShutdown template ↔ Acyclic template := by
  unfold CanShutdown
  simp only [rolesShutdown_ne_nil_iff]
  constructor
  · intro h name hcycle
    obtain ⟨names, hnames⟩ := exists_names template fun other => OnCycle (IsParent template) name other
    obtain ⟨role, hrole, hname⟩ := role_of_onCycle (onCycle_self hcycle)
    obtain ⟨role, hrole, hout, hfree⟩ := h names ⟨role, hrole, by
      rw [hnames role hrole, hname, not_not]
      exact onCycle_self hcycle⟩
    rw [hnames role hrole, not_not] at hout
    obtain ⟨next, hnext, other, hother, hothername, hparent⟩ := hout.exists_next
    refine hfree other hother ?_ hparent
    rw [hnames other hother, not_not, hothername]
    exact hnext
  · rintro h names ⟨role, hrole, hout⟩
    obtain ⟨name, ⟨⟨role, hrole, hname⟩, hnotin⟩, hmax⟩ := exists_maximal h
      (finite_names fun name => name ∉ names) ⟨role.named, ⟨role, hrole, rfl⟩, hout⟩
    refine ⟨role, hrole, by rw [hname]; exact hnotin, fun other hother hotherout hin => ?_⟩
    exact hmax other.named ⟨⟨other, hother, rfl⟩, hotherout⟩ ⟨other, hother, rfl, hname ▸ hin⟩

/-- **Some role can always be deployed if and only if** every parent is a role and no role is its own
ancestor. -/
theorem canDeploy_iff (hnodup : (template.roles.map RoleTemplate.named).Nodup) :
    CanDeploy template ↔ ParentsExist template ∧ Acyclic template := by
  have hsame : ∀ {role other}, role ∈ template.roles → other ∈ template.roles →
      role.named = other.named → role = other := fun hrole hother =>
    List.inj_on_of_nodup_map hnodup hrole hother
  unfold CanDeploy
  simp only [rolesDeploy_ne_nil_iff]
  constructor
  · intro h
    refine ⟨fun role hrole parent hparent => ?_, fun name hcycle => ?_⟩
    · obtain ⟨names, hnames⟩ := exists_names template fun name => name = role.named
      obtain ⟨waiting, hwaiting, hout, hparents⟩ := h names ⟨role, hrole, by
        rw [hnames role hrole]
        exact fun hne => hne rfl⟩
      rw [hnames waiting hwaiting, not_not] at hout
      rw [hsame hwaiting hrole hout] at hparents
      exact (hparents parent hparent).2
    · obtain ⟨names, hnames⟩ := exists_names template fun other => OnCycle (IsParent template) name other
      obtain ⟨role, hrole, hname⟩ := role_of_onCycle (onCycle_self hcycle)
      obtain ⟨role, hrole, hout, hparents⟩ := h names ⟨role, hrole, by
        rw [hnames role hrole, hname, not_not]
        exact onCycle_self hcycle⟩
      rw [hnames role hrole, not_not] at hout
      obtain ⟨previous, hprevious, child, hchild, hchildname, hparent⟩ := hout.exists_previous
      rw [hsame hchild hrole hchildname] at hparent
      obtain ⟨hin, other, hother, rfl⟩ := hparents previous hparent
      exact (hnames other hother).mp hin hprevious
  · rintro ⟨hexist, hacyclic⟩ names ⟨role, hrole, hout⟩
    obtain ⟨name, ⟨⟨role, hrole, rfl⟩, hnotin⟩, hmin⟩ := exists_minimal hacyclic
      (finite_names fun name => name ∉ names) ⟨role.named, ⟨role, hrole, rfl⟩, hout⟩
    refine ⟨role, hrole, hnotin, fun parent hparent => ?_⟩
    obtain ⟨other, hother, hname⟩ := hexist role hrole parent hparent
    refine ⟨?_, other, hother, hname⟩
    by_contra hpending
    exact hmin parent ⟨⟨other, hother, hname⟩, hpending⟩ ⟨role, hrole, rfl, hparent⟩

end Stuck

/-- **An accepted template with the straight strategy does not get stuck** at the deployment exactly when its
parents exist and have no cycle, and at the shutdown exactly when they have no cycle. -/
theorem straight_iff (parsers : Parsers) (template : Body) (h : validate parsers template = .ok ())
    (_ : template.deployment = .straight) :
    (CanDeploy template ↔ ParentsExist template ∧ Acyclic template) ∧
      (CanShutdown template ↔ Acyclic template) :=
  ⟨canDeploy_iff (validate_eq_ok h).2.1, canShutdown_iff⟩

/-! ## Services with two roles -/

/-- A role with parents. -/
def roleOf (name : String) (parents : List String) : RoleTemplate where
  name := some name
  type := .vm
  cardinality := some 1
  templateId := some 0
  parents := some parents
  minVms := none
  maxVms := none
  cooldown := none
  elasticityPolicies := none
  scheduledPolicies := none
  nics := none

/-- A front end needs a database; each one needs the other; and the database is missing. -/
def chain : Body := ⟨.straight, [roleOf "db" [], roleOf "front" ["db"]]⟩

def cycle : Body := ⟨.straight, [roleOf "db" ["front"], roleOf "front" ["db"]]⟩

def missing : Body := ⟨.straight, [roleOf "front" ["db"]]⟩

theorem chain_acyclic : ParentsExist chain ∧ Acyclic chain := by
  have hparents : ∀ {parent name}, IsParent chain parent name → parent = "db" ∧ name = "front" := by
    rintro parent name ⟨role, hrole, rfl, hparent⟩
    obtain rfl | rfl : role = roleOf "db" [] ∨ role = roleOf "front" ["db"] := by simpa [chain] using hrole
    · exact absurd hparent List.not_mem_nil
    · exact ⟨List.mem_singleton.mp hparent, rfl⟩
  refine ⟨fun role hrole parent hparent => ?_, fun name hcycle => ?_⟩
  · refine ⟨roleOf "db" [], List.mem_cons_self, ?_⟩
    exact (hparents ⟨role, hrole, rfl, hparent⟩).1.symm
  · obtain ⟨next, hfirst, -⟩ := TransGen.head'_iff.mp hcycle
    obtain ⟨last, -, hlast⟩ := TransGen.tail'_iff.mp hcycle
    exact absurd ((hparents hfirst).1.symm.trans (hparents hlast).2) (by decide)

/-- A chain of roles does not get stuck. -/
theorem chain_works : CanDeploy chain ∧ CanShutdown chain := by
  have h := straight_iff ⟨fun _ => none, fun _ => true, fun _ => true⟩ chain (by decide) rfl
  exact ⟨h.1.mpr chain_acyclic, h.2.mpr chain_acyclic.2⟩

/-- **Two accepted templates that get stuck**: a cycle, which deploys nothing and is deleted with its roles
running, and a missing parent. -/
theorem cycle_stuck :
    (validate ⟨fun _ => none, fun _ => true, fun _ => true⟩ cycle = .ok () ∧ ¬ CanDeploy cycle ∧
      ¬ CanShutdown cycle ∧ undeployAction (rolesWith cycle [] .done .running) = .delete) ∧
    (validate ⟨fun _ => none, fun _ => true, fun _ => true⟩ missing = .ok () ∧ ¬ CanDeploy missing) := by
  refine ⟨⟨by decide, fun h => ?_, fun h => ?_, rfl⟩, by decide, fun h => ?_⟩
  · exact h [] ⟨roleOf "db" ["front"], List.mem_cons_self, List.not_mem_nil⟩ (by decide)
  · exact h [] ⟨roleOf "db" ["front"], List.mem_cons_self, List.not_mem_nil⟩ (by decide)
  · exact h [] ⟨roleOf "front" ["db"], List.mem_cons_self, List.not_mem_nil⟩ (by decide)

end Straight
