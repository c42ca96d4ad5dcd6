/-
# The access control manager (`src/acl/AclManager.cc`)

`authorize` decides one request: it builds the patterns and the masks of the object and compares them
with the rules for everyone, for the user and for each group of the user, first with the rules of the
permissions of the object, then with the stored rules.  `reverseSearch` goes through the stored rules
for the same users and collects what they grant: all the objects of a type, or the objects of some
groups, of some clusters or with some identifiers.

Conventions of the embedding:

* The stored rules are a multimap by the `user` of the rule: a list, in the order of insertion, of
  which `equalRange` takes the rules with one key.
* A set of groups or of clusters is the list of its elements.
* The lists that `reverseSearch` fills are empty at the call.
-/
import OpenNebula.AclRule

/-- `AclManager`: the zone and the stored rules. -/
structure AclManager where
  zoneId : Oid
  aclRules : List AclRule

/-- The patterns and the masks of a request. -/
structure AclRequest where
  resourceOidReq : BitVec 64
  resourceGidReq : BitVec 64
  resourceCidReq : List (BitVec 64)
  resourceAllReq : BitVec 64
  rightsReq : BitVec 64
  resourceOidMask : BitVec 64
  resourceGidMask : BitVec 64
  resourceCidMask : BitVec 64

/-- `match_cluster_req`. -/
def matchClusterReq (resourceCidReq : List (BitVec 64)) (resourceCidMask ruleResource : BitVec 64) :
    Bool :=
  resourceCidReq.any fun cid => ruleResource &&& resourceCidMask = cid

/-- `acl_rules.equal_range`. -/
def equalRange (rules : List AclRule) (userReq : BitVec 64) : List AclRule :=
  rules.filter fun r => r.user = userReq

namespace AclManager

open AclRule

/-! ## One request -/

/-- The comparison of `match_rules` with one rule. -/
def matchRule (m : AclManager) (req : AclRequest) (r : AclRule) : Bool :=
  (r.zone &&& allId = allId ||
      r.zone &&& (individualId ||| 0x00000000FFFFFFFF) = individualId ||| m.zoneId.long) &&
    r.rights &&& req.rightsReq = req.rightsReq &&
    (r.resource &&& req.resourceAllReq = req.resourceAllReq ||
      r.resource &&& req.resourceGidMask = req.resourceGidReq ||
      r.resource &&& req.resourceOidMask = req.resourceOidReq ||
      matchClusterReq req.resourceCidReq req.resourceCidMask r.resource)

/-- `AclManager::match_rules`. -/
def matchRules (m : AclManager) (userReq : BitVec 64) (req : AclRequest) (rules : List AclRule) :
    Bool :=
  (equalRange rules userReq).any (m.matchRule req)

/-- `AclManager::match_rules_wrapper`. -/
def matchRulesWrapper (m : AclManager) (userReq : BitVec 64) (req : AclRequest)
    (tmpRules : List AclRule) : Bool :=
  m.matchRules userReq req tmpRules || m.matchRules userReq req m.aclRules

/-- The patterns and the masks of an operation on an object.  A pattern that is not used is
`noneId`. -/
def request (obj : PoolObjectAuth) (op : BitVec 64) : AclRequest where
  resourceOidReq :=
    if obj.oid.msb then noneId else obj.objType.bits ||| individualId ||| obj.oid.long
  resourceGidReq :=
    if obj.gid.msb || obj.disableGroupAcl then noneId
    else obj.objType.bits ||| groupId ||| obj.gid.long
  resourceCidReq :=
    if obj.disableClusterAcl then []
    else obj.cids.map fun cid => obj.objType.bits ||| clusterId ||| cid.long
  resourceAllReq := if obj.disableAllAcl then noneId else obj.objType.bits ||| allId
  rightsReq := op
  resourceOidMask := obj.objType.bits ||| individualId ||| 0x00000000FFFFFFFF
  resourceGidMask := obj.objType.bits ||| groupId ||| 0x00000000FFFFFFFF
  resourceCidMask := obj.objType.bits ||| clusterId ||| 0x00000000FFFFFFFF

/-- `AclManager::authorize`. -/
def authorize (m : AclManager) (uid : Oid) (userGroups : List Oid) (obj : PoolObjectAuth)
    (op : Operation) : Bool :=
  -- The operations without lock have the bit 0x10.
  if op.code &&& 0x10 = 0 ∧ obj.locked > 0 ∧ obj.locked ≤ op.code.toInt then false
  else
    let op' := if op.code &&& 0x10 ≠ 0 then op.code &&& 0x0F else op.code
    let req := request obj op'
    let tmpRules := obj.getAclRules m.zoneId
    m.matchRulesWrapper allId req tmpRules ||
      m.matchRulesWrapper (individualId ||| uid.long) req tmpRules ||
      userGroups.any fun group => m.matchRulesWrapper (groupId ||| group.long) req tmpRules

/-! ## Search -/

/-- The result of a search. -/
structure Found where
  all : Bool
  oids : List Oid
  gids : List Oid
  cids : List Oid
  deriving DecidableEq, Repr

/-- What is searched, and which kinds of rules are left out. -/
structure Search where
  objType : ObjectType
  op : Operation
  disableAllAcl : Bool
  disableClusterAcl : Bool
  disableGroupAcl : Bool

/-- The rule grants the operation in this zone or in all the zones. -/
def applies (m : AclManager) (q : Search) (r : AclRule) : Bool :=
  r.rights &&& q.op.code = q.op.code &&
    (r.zone = individualId ||| m.zoneId.long || r.zone = allId)

/-- The rule grants all the objects of the type. -/
def grantsAll (q : Search) (r : AclRule) : Bool :=
  !q.disableAllAcl && r.resource &&& (q.objType.bits ||| allId) = q.objType.bits ||| allId

/-- The rule grants the objects of a group. -/
def grantsGroup (q : Search) (r : AclRule) : Bool :=
  !q.disableGroupAcl && r.resource &&& (q.objType.bits ||| groupId) = q.objType.bits ||| groupId

/-- The rule grants the objects of a cluster. -/
def grantsCluster (q : Search) (r : AclRule) : Bool :=
  !q.disableClusterAcl &&
    r.resource &&& (q.objType.bits ||| clusterId) = q.objType.bits ||| clusterId

/-- The rule grants one object. -/
def grantsObject (q : Search) (r : AclRule) : Bool :=
  r.resource &&& (q.objType.bits ||| individualId) = q.objType.bits ||| individualId

/-- The inner loop of `reverse_search`: it stops at a rule for all the objects. -/
def searchRules (m : AclManager) (q : Search) : List AclRule → Found → Found
  | [], f => f
  | r :: rules, f =>
    if m.applies q r then
      if grantsAll q r then { f with all := true }
      else if grantsGroup q r then
        m.searchRules q rules { f with gids := f.gids ++ [r.resourceId] }
      else if grantsCluster q r then
        m.searchRules q rules { f with cids := f.cids ++ [r.resourceId] }
      else if grantsObject q r then
        m.searchRules q rules { f with oids := f.oids ++ [r.resourceId] }
      else m.searchRules q rules f
    else m.searchRules q rules f

/-- The lists are cleared once all the objects are found. -/
def Found.trim (f : Found) : Found :=
  if f.all then { f with oids := [], gids := [], cids := [] } else f

/-- `user_reqs`: the keys of the rules of a user. -/
def userReqs (uid : Oid) (userGroups : List Oid) : List (BitVec 64) :=
  [allId, individualId ||| uid.long] ++ userGroups.map fun g => groupId ||| g.long

/-- `AclManager::reverse_search`. -/
def reverseSearch (m : AclManager) (uid : Oid) (userGroups : List Oid) (q : Search) : Found :=
  (userReqs uid userGroups).foldl
    (fun f userReq => (m.searchRules q (equalRange m.aclRules userReq) f).trim) ⟨false, [], [], []⟩

/-- The result of a search covers an object. -/
def Found.Covers (f : Found) (obj : PoolObjectAuth) : Prop :=
  f.all = true ∨ obj.oid ∈ f.oids ∨ obj.gid ∈ f.gids ∨ ∃ cid ∈ obj.cids, cid ∈ f.cids

instance (f : Found) (obj : PoolObjectAuth) : Decidable (f.Covers obj) :=
  inferInstanceAs (Decidable (_ ∨ _ ∨ _ ∨ _))

end AclManager
