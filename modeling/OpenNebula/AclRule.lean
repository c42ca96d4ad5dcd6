/-
# Rules of the access control lists (`src/acl/AclRule.cc`, `src/pool/PoolObjectAuth.cc`)

A rule has four 64-bit numbers: who it is for (`user`), which objects it is about (`resource`), what
it grants (`rights`) and where it applies (`zone`).  A compound has a selector and the types of the
objects in its high bits, and an identifier in its low 32 bits.  `malformed` is the check of a rule
before it is stored.  The permissions of an object are turned into three rules for it.

Conventions of the embedding:

* A `long long` is a 64-bit word, an `int` a 32-bit word; an `int` is extended with its sign when it
  is combined with a `long long`.
* `malformed` returns the text of its errors, or `none` for a rule that is right.
-/
import OpenNebula.PoolObject

/-- An identifier, a C `int`. -/
abbrev Oid := BitVec 32

/-- An identifier as a `long long`. -/
def Oid.long (id : Oid) : BitVec 64 := id.signExtend 64

/-- The bit of a type. -/
def ObjectType.bits (t : ObjectType) : BitVec 64 := BitVec.ofNat 64 t.code

/-- `PoolObjectSQL::type_to_str`. -/
def ObjectType.toStr : ObjectType → String
  | .none => ""
  | .vm => "VM"
  | .host => "HOST"
  | .net => "NET"
  | .image => "IMAGE"
  | .user => "USER"
  | .template => "TEMPLATE"
  | .group => "GROUP"
  | .acl => "ACL"
  | .datastore => "DATASTORE"
  | .cluster => "CLUSTER"
  | .document => "DOCUMENT"
  | .zone => "ZONE"
  | .secgroup => "SECGROUP"
  | .vdc => "VDC"
  | .vrouter => "VROUTER"
  | .marketplace => "MARKETPLACE"
  | .marketplaceapp => "MARKETPLACEAPP"
  | .vmgroup => "VMGROUP"
  | .vntemplate => "VNTEMPLATE"
  | .hook => "HOOK"
  | .backupjob => "BACKUPJOB"
  | .scheduledaction => "SCHEDULEDACTION"

/-- `AuthRequest::Operation`. -/
inductive Operation where
  | use | useNoLck | manage | manageNoLck | admin | adminNoLck | create | createNoLck | none
  deriving DecidableEq, Repr

/-- The number of an operation. -/
def Operation.code : Operation → BitVec 64
  | .use => 0x1
  | .useNoLck => 0x11
  | .manage => 0x2
  | .manageNoLck => 0x12
  | .admin => 0x4
  | .adminNoLck => 0x14
  | .create => 0x8
  | .createNoLck => 0x18
  | .none => 0x0

/-- `AuthRequest::operation_to_str`. -/
def Operation.toStr : Operation → String
  | .use | .useNoLck => "USE"
  | .manage | .manageNoLck => "MANAGE"
  | .admin | .adminNoLck => "ADMIN"
  | .create | .createNoLck => "CREATE"
  | .none => ""

/-! ## Rules -/

/-- `AclRule`. -/
structure AclRule where
  oid : ℤ
  user : BitVec 64
  resource : BitVec 64
  rights : BitVec 64
  zone : BitVec 64
  deriving DecidableEq, Repr

namespace AclRule

/-- `AclRule::INDIVIDUAL_ID`. -/
def individualId : BitVec 64 := 0x0000000100000000

/-- `AclRule::GROUP_ID`. -/
def groupId : BitVec 64 := 0x0000000200000000

/-- `AclRule::ALL_ID`. -/
def allId : BitVec 64 := 0x0000000400000000

/-- `AclRule::CLUSTER_ID`. -/
def clusterId : BitVec 64 := 0x0000000800000000

/-- `AclRule::NONE_ID`: no rule has it. -/
def noneId : BitVec 64 := 0x1000000000000000

/-- The bits of some types. -/
def bitsOf (ts : List ObjectType) : BitVec 64 := ts.foldl (fun b t => b ||| t.bits) 0

/-- `AclRule::INVALID_CLUSTER_OBJECTS`. -/
def invalidClusterObjects : BitVec 64 :=
  bitsOf [.vm, .image, .user, .template, .group, .acl, .cluster, .document, .zone, .secgroup, .vdc,
    .vrouter, .marketplace, .marketplaceapp, .vmgroup, .vntemplate]

/-- `AclRule::INVALID_GROUP_OBJECTS`. -/
def invalidGroupObjects : BitVec 64 := bitsOf [.host, .group, .cluster, .zone, .vdc]

/-- `AclRule::FEDERATED_OBJECTS`. -/
def federatedObjects : BitVec 64 := bitsOf [.user, .group, .zone, .acl, .vdc]

/-- `AclRule::user_id`. -/
def userId (r : AclRule) : Oid := r.user.setWidth 32

/-- `AclRule::resource_id`. -/
def resourceId (r : AclRule) : Oid := r.resource.setWidth 32

/-- `AclRule::resource_code`. -/
def resourceCode (r : AclRule) : BitVec 64 := r.resource &&& 0xFFFFFFFF00000000

/-- `AclRule::zone_id`. -/
def zoneId (r : AclRule) : Oid := r.zone.setWidth 32

/-- `AclRule::pool_objects`. -/
def poolObjects : List ObjectType :=
  [.vm, .host, .net, .image, .user, .template, .group, .datastore, .cluster, .document, .zone,
    .secgroup, .vdc, .vrouter, .marketplace, .marketplaceapp, .vmgroup, .vntemplate, .backupjob]

/-- `AclRule::auth_operations`. -/
def authOperations : List Operation := [.use, .manage, .admin, .create]

/-- The text of the first selector that is in the word. -/
def selectorStr (word : BitVec 64) (id : Oid) : List (BitVec 64 × String) → String
  | [] => if word &&& allId ≠ 0 then "*" else "??"
  | (selector, mark) :: rest =>
    if word &&& selector ≠ 0 then mark ++ toString id.toInt else selectorStr word id rest

/-- `AclRule::build_str`. -/
def toStr (r : AclRule) : String :=
  selectorStr r.user r.userId [(groupId, "@"), (individualId, "#")] ++ " " ++
    "+".intercalate ((poolObjects.filter fun t => r.resource &&& t.bits ≠ 0).map ObjectType.toStr) ++
    "/" ++
    selectorStr r.resource r.resourceId [(groupId, "@"), (individualId, "#"), (clusterId, "%")] ++
    " " ++
    "+".intercalate
      ((authOperations.filter fun op => r.rights &&& op.code ≠ 0).map Operation.toStr) ++
    " " ++ selectorStr r.zone r.zoneId [(individualId, "#")]

/-- `AclRule::operator==`: the identifier is not compared. -/
def same (r r' : AclRule) : Bool :=
  r.user = r'.user ∧ r.resource = r'.resource ∧ r.rights = r'.rights ∧ r.zone = r'.zone

/-- A check of `malformed`: the fault, whether its text is set off from the texts before it, and the
text. -/
structure Check where
  fault : Bool
  separated : Bool
  text : String

/-- The types of the objects of a rule. -/
def resourceType (r : AclRule) : BitVec 64 := r.resourceCode &&& 0xFFFFFFF000000000

/-- The checks of the user. -/
def userChecks (r : AclRule) : List Check :=
  [⟨r.user &&& individualId ≠ 0 ∧ r.user &&& groupId ≠ 0, true,
      "[user] INDIVIDUAL (#) and GROUP (@) bits are exclusive"⟩,
    ⟨r.user &&& individualId ≠ 0 ∧ r.user &&& allId ≠ 0, true,
      "[user] INDIVIDUAL (#) and ALL (*) bits are exclusive"⟩,
    ⟨r.user &&& groupId ≠ 0 ∧ r.user &&& allId ≠ 0, true,
      "[user] GROUP (@) and ALL (*) bits are exclusive"⟩,
    ⟨r.user &&& 0x700000000 = 0, true,
      "[user] is missing one of the INDIVIDUAL, GROUP or ALL bits"⟩,
    ⟨r.userId.msb, true, "[user] ID cannot be negative"⟩,
    ⟨r.user &&& allId ≠ 0 ∧ r.userId ≠ 0, true, "when using the ALL bit, [user] ID must be 0"⟩]

/-- A selector is there together with another one. -/
def mixed (resource selector : BitVec 64) : Bool :=
  resource &&& selector ≠ 0 ∧ resource &&& 0xF00000000 ≠ selector

/-- The checks of the resource. -/
def resourceChecks (r : AclRule) : List Check :=
  [⟨mixed r.resource individualId || mixed r.resource groupId || mixed r.resource clusterId ||
        mixed r.resource allId, true,
      "[resource] INDIVIDUAL (#), GROUP (@), CLUSTER (%) and ALL (*) bits are exclusive"⟩,
    ⟨r.resource &&& clusterId ≠ 0 ∧ r.resourceType &&& invalidClusterObjects ≠ 0, true,
      "[resource] CLUSTER(%) selector can be applied only to " ++ ObjectType.datastore.toStr ++ ", " ++
        ObjectType.host.toStr ++ " and " ++ ObjectType.net.toStr ++ " types"⟩,
    ⟨r.resource &&& groupId ≠ 0 ∧ r.resourceType &&& invalidGroupObjects ≠ 0, true,
      "[resource] GROUP(@) selector cannot be applied to " ++ ObjectType.host.toStr ++ ", " ++
        ObjectType.group.toStr ++ ", " ++ ObjectType.cluster.toStr ++ ", " ++
        ObjectType.zone.toStr ++ " or " ++ ObjectType.vdc.toStr ++ " types"⟩,
    ⟨r.resource &&& 0xF00000000 = 0, true,
      "[resource] is missing one of the INDIVIDUAL, GROUP, CLUSTER or ALL bits"⟩,
    ⟨r.resourceId.msb, true, "[resource] ID cannot be negative"⟩,
    ⟨r.resource &&& allId ≠ 0 ∧ r.resourceId ≠ 0, true,
      "when using the ALL bit, [resource] ID must be 0"⟩,
    ⟨r.resource &&& 0xFFFFFFF000000000 = 0, true, "[resource] type is missing"⟩,
    ⟨r.resource &&& 0xFE80000000000000 ≠ 0, true, "wrong [resource] type"⟩]

/-- The checks of the rights, which are compared as signed numbers. -/
def rightsChecks (r : AclRule) : List Check :=
  [⟨r.rights = 0, true, "wrong [rights], it cannot be 0"⟩,
    ⟨(0xF : BitVec 64).slt r.rights, true, "wrong [rights], it cannot be bigger than 0xF"⟩]

/-- The checks of the zone.  The text of the first one is not set off. -/
def zoneChecks (r : AclRule) : List Check :=
  [⟨r.zone &&& groupId ≠ 0, false, "[zone] GROUP (@) bit is not supported"⟩,
    ⟨r.zone &&& individualId ≠ 0 ∧ r.zone &&& allId ≠ 0, true,
      "[zone] INDIVIDUAL (#) and ALL (*) bits are exclusive"⟩,
    ⟨r.zone &&& 0x700000000 = 0, true, "[zone] is missing one of the INDIVIDUAL or ALL bits"⟩,
    ⟨r.zoneId.msb, true, "[zone] ID cannot be negative"⟩,
    ⟨r.zone &&& allId ≠ 0 ∧ r.zoneId ≠ 0, true, "when using the ALL bit, [zone] ID must be 0"⟩,
    ⟨r.zone &&& allId ≠ 0 ∧ r.resource &&& individualId ≠ 0 ∧
        r.resourceType &&& federatedObjects ≠ r.resourceType, true,
      "[resource] INDIVIDUAL(#) selector cannot be applied to ALL zones, except for " ++
        ObjectType.user.toStr ++ ", " ++ ObjectType.group.toStr ++ " and " ++
        ObjectType.zone.toStr ++ " types"⟩]

/-- The text after a check. -/
def report (error : Option String) (c : Check) : Option String :=
  if c.fault then
    match error with
    | none => some c.text
    | some s => some (if c.separated then s ++ "; " ++ c.text else s ++ c.text)
  else error

/-- `AclRule::malformed`. -/
def malformed (r : AclRule) : Option String :=
  (r.userChecks ++ r.resourceChecks ++ r.rightsChecks ++ r.zoneChecks).foldl report none

/-- The rule passes the check. -/
def WellFormed (r : AclRule) : Prop := r.malformed = none

instance (r : AclRule) : Decidable r.WellFormed := inferInstanceAs (Decidable (_ = _))

theorem foldl_report_eq_none (cs : List Check) :
    ∀ error, cs.foldl report error = none ↔ error = none ∧ ∀ c ∈ cs, c.fault = false := by
  induction cs with
  | nil =>
    intro error
    simp
  | cons c cs ih =>
    intro error
    rw [List.foldl_cons, ih]
    cases hc : c.fault with
    | false => simp [report, hc]
    | true =>
      have hsome : report error c ≠ none := by
        unfold report
        rw [if_pos hc]
        cases error <;> simp
      simp [hsome, hc]

/-- **A rule is right if no check finds a fault.** -/
theorem wellFormed_iff (r : AclRule) :
    r.WellFormed ↔ (∀ c ∈ r.userChecks, c.fault = false) ∧ (∀ c ∈ r.resourceChecks, c.fault = false) ∧
      (∀ c ∈ r.rightsChecks, c.fault = false) ∧ ∀ c ∈ r.zoneChecks, c.fault = false := by
  rw [WellFormed, malformed, foldl_report_eq_none]
  simp only [List.forall_mem_append, true_and]
  tauto

end AclRule

/-! ## Permissions of an object -/

/-- The permissions of the owner, the group or the others. -/
structure Permissions where
  use : ℤ
  manage : ℤ
  admin : ℤ
  deriving DecidableEq, Repr

/-- The rights of some permissions. -/
def Permissions.rights (p : Permissions) : BitVec 64 :=
  (if p.use = 1 then Operation.use.code else 0) |||
    (if p.manage = 1 then Operation.manage.code else 0) |||
    (if p.admin = 1 then Operation.admin.code else 0)

/-- `PoolObjectAuth`. -/
structure PoolObjectAuth where
  objType : ObjectType
  oid : Oid
  uid : Oid
  gid : Oid
  cids : List Oid
  owner : Permissions
  group : Permissions
  other : Permissions
  disableAllAcl : Bool
  disableClusterAcl : Bool
  disableGroupAcl : Bool
  locked : ℤ

namespace PoolObjectAuth

open AclRule

/-- The rule of some permissions of an object. -/
def permissionRule (obj : PoolObjectAuth) (zone : Oid) (user : BitVec 64) (p : Permissions) :
    AclRule where
  oid := 0
  user := user
  resource := obj.objType.bits ||| individualId ||| obj.oid.long
  rights := p.rights
  zone := individualId ||| zone.long

/-- `PoolObjectAuth::get_acl_rules`. -/
def getAclRules (obj : PoolObjectAuth) (zone : Oid) : List AclRule :=
  [obj.permissionRule zone (individualId ||| obj.uid.long) obj.owner,
    obj.permissionRule zone (groupId ||| obj.gid.long) obj.group,
    obj.permissionRule zone allId obj.other]

end PoolObjectAuth
