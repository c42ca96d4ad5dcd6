/-
# Roles of a virtual machine group (`src/vm_group/VMGroup.cc`, `src/vm_group/VMGroupRole.cc`)

A group has a table of roles.  A role is a vector attribute with an `ID` and a `NAME`, and the set of its
virtual machines, which is also the attribute `VMS`.  The table has two maps to the roles, by identifier
and by name, and the identifier of the next role.

Conventions of the embedding:

* The roles are objects: the maps have pointers and `heap` has what they point to, so a change of a role
  is seen through both maps.  Reading through a pointer to a role that is gone, or through an attribute
  that was deleted, has no defined result: the operation gives `none`, and in a run any table may follow.
* `VMGroup::add_role`, `del_role`, `update_role` and `insert` end with `check_consistency`, which reads
  the roles and the rules and changes nothing; its answer is left out.
* The stored body of a group is the text of its roles; the other parts of the group are left out.
-/
import OpenNebula.Attribute
import OpenNebula.TextList
import OpenNebula.Transition

open XmlText

namespace VMGroup

def attrId : Text := "ID".toList
def attrName : Text := "NAME".toList
def attrVms : Text := "VMS".toList
def attrRole : Text := "ROLE".toList
def rolesRoot : Text := "ROLES".toList

/-- `VMGroupRoles::MAX_ROLES`. -/
def maxRoles : ℕ := 32

/-! ## Roles -/

/-- `VMGroupRole`: `vms` is the set of the virtual machines, in order. -/
structure VMGroupRole where
  va : AttributeMap
  vms : List ℤ

namespace VMGroupRole

/-- The constructor reads the virtual machines. -/
def new (va : AttributeMap) : VMGroupRole :=
  let vmsStr := va.vectorValue attrVms
  ⟨va, if vmsStr.isEmpty then [] else splitUnique vmsStr⟩

/-- `VMGroupRole::id`: without a number the result is not initialised. -/
def id (r : VMGroupRole) : Option ℤ := r.va.vectorInt attrId

/-- `VMGroupRole::name`. -/
def name (r : VMGroupRole) : Text := r.va.vectorValue attrName

/-- `VMGroupRole::name(new_name)`. -/
def setName (r : VMGroupRole) (newName : Text) : VMGroupRole :=
  { r with va := r.va.replace attrName newName }

/-- `VMGroupRole::update`. -/
def update (r : VMGroupRole) (vaUpdate : AttributeMap) : VMGroupRole :=
  { r with va := r.va.merge (vaUpdate.remove attrVms) true }

/-- `VMGroupRole::set_vms`. -/
def setVms (r : VMGroupRole) : VMGroupRole :=
  if r.vms.isEmpty then { r with va := r.va.remove attrVms }
  else { r with va := r.va.replace attrVms (joinIds r.vms) }

/-- `VMGroupRole::add_vm`. -/
def addVm (r : VMGroupRole) (vm : ℤ) : VMGroupRole :=
  if vm ∈ r.vms then r else setVms { r with vms := r.vms.orderedInsert (· ≤ ·) vm }

/-- `VMGroupRole::del_vm`. -/
def delVm (r : VMGroupRole) (vm : ℤ) : VMGroupRole :=
  if vm ∈ r.vms then setVms { r with vms := r.vms.erase vm } else r

end VMGroupRole

/-! ## The table -/

/-- `VMGroupRoles`; a pointer is a number, and `fresh` is the next one. -/
structure VMGroupRoles where
  nextRole : ℤ
  byName : AList fun _ : Text => ℕ
  byId : AList fun _ : ℤ => ℕ
  heap : AList fun _ : ℕ => VMGroupRole
  fresh : ℕ

namespace VMGroupRoles

/-- A table without roles. -/
def empty : VMGroupRoles := ⟨0, ∅, ∅, ∅, 0⟩

/-- A new role under an identifier and a name. -/
def insertRole (s : VMGroupRoles) (id : ℤ) (name : Text) (role : VMGroupRole) : VMGroupRoles :=
  { s with
    byName := s.byName.insert name s.fresh
    byId := s.byId.insert id s.fresh
    heap := s.heap.insert s.fresh role
    fresh := s.fresh + 1 }

/-- `VMGroupRoles::add_role`: the table and the error. -/
def addRole (s : VMGroupRoles) (vrole : AttributeMap) : VMGroupRoles × Option Text :=
  let rname := vrole.vectorValue attrName
  if rname.isEmpty then (s, some "Missing NAME in VM group role".toList)
  else
    let vrole := (vrole.replace attrId (intText s.nextRole)).remove attrVms
    if s.nextRole ∈ s.byId ∨ rname ∈ s.byName then (s, some "Role already exists".toList)
    else ({ s.insertRole s.nextRole rname (.new vrole) with nextRole := s.nextRole + 1 }, none)

/-- The role that a map points to: no pointer, or a pointer with or without a role. -/
def deref (s : VMGroupRoles) : Option ℕ → Option (Option (ℕ × VMGroupRole))
  | none => some none
  | some p => (s.heap.lookup p).map fun role => some (p, role)

/-- `VMGroup::del_role` and `VMGroupRoles::del_role`. -/
def delRole (s : VMGroupRoles) (roleId : ℤ) : Option (VMGroupRoles × Option Text) :=
  (s.deref (s.byId.lookup roleId)).map fun
    | none => (s, some ("Unable to delete role ".toList ++ intText roleId ++
        ", the role doesn't exists".toList))
    | some (p, role) =>
      if 0 < role.vms.length then
        (s, some ("Unable to delete role ".toList ++ intText roleId ++
          ", the role has assigned VMs ".toList))
      else
        ({ s with
            byName := s.byName.erase role.name
            byId := s.byId.erase roleId
            heap := s.heap.erase p }, none)

/-- `VMGroupRoles::rename_role`: `none` when there is a role with the name. -/
def renameRole (s : VMGroupRoles) (p : ℕ) (role : VMGroupRole) (newName : Text) :
    Option (VMGroupRoles × VMGroupRole) :=
  if newName ∈ s.byName then none
  else
    let role' := role.setName newName
    some ({ s with
      byName := (s.byName.erase role.name).insert newName p
      heap := s.heap.insert p role' }, role')

/-- `VMGroup::update_role`, for the group `oid`. -/
def updateRole (oid : ℤ) (s : VMGroupRoles) (roleId : ℤ) (vrole : AttributeMap) :
    Option (VMGroupRoles × Option Text) :=
  (s.deref (s.byId.lookup roleId)).map fun
    | none => (s, some ("VMGroup ".toList ++ intText oid ++ " doesn't have role ".toList ++
        intText roleId))
    | some (p, role) =>
      if 0 < role.vms.length then
        (s, some ("VMGroup ".toList ++ intText oid ++ " Role ".toList ++ intText roleId ++
          " has VMs, unable to update".toList))
      else
        let newName := vrole.vectorValue attrName
        let renamed :=
          if !newName.isEmpty && newName != role.name then s.renameRole p role newName
          else some (s, role)
        match renamed with
        | none =>
          (s, some ("VMGroup ".toList ++ intText oid ++ " Role ".toList ++ intText roleId ++
            " can not update name, role with name ".toList ++ newName ++ " already exists".toList))
        | some (s, role) => ({ s with heap := s.heap.insert p (role.update vrole) }, none)

/-- `VMGroupRoles::add_vm` and `VMGroupRoles::del_vm`: the change of the role of a name. -/
def changeRole (f : VMGroupRole → VMGroupRole) (s : VMGroupRoles) (roleName : Text) :
    Option (VMGroupRoles × Bool) :=
  (s.deref (s.byName.lookup roleName)).map fun
    | none => (s, false)
    | some (p, role) => ({ s with heap := s.heap.insert p (f role) }, true)

/-- `VMGroupRoles::add_vm`. -/
def addVm (s : VMGroupRoles) (roleName : Text) (vm : ℤ) : Option (VMGroupRoles × Bool) :=
  s.changeRole (fun role => role.addVm vm) roleName

/-- `VMGroupRoles::del_vm`. -/
def delVm (s : VMGroupRoles) (roleName : Text) (vm : ℤ) : Option (VMGroupRoles × Bool) :=
  s.changeRole (fun role => role.delVm vm) roleName

/-- The bit set of `VMGroupRule`: an identifier from `MAX_ROLES` on is left out. -/
def ruleBit (rolesId : List ℤ) (i : ℕ) : Bool := decide (i < maxRoles) && decide ((i : ℤ) ∈ rolesId)

/-! ## Creation -/

/-- The loop of `VMGroup::insert` over the attributes: the first error ends it, and an attribute that
is not a vector is left out. -/
def insertLoop : VMGroupRoles × Option Text → List Attribute → VMGroupRoles × Option Text
  | r, [] => r
  | (s, some error), _ :: atts => insertLoop (s, some error) atts
  | (s, none), .single _ _ :: atts => insertLoop (s, none) atts
  | (s, none), .vector _ va :: atts => insertLoop (s.addRole va) atts

/-- `VMGroup::insert` for a group with a name and its `ROLE` attributes.  With too many attributes they
are deleted, and the loop goes on with what was deleted. -/
def insert (name : Text) (roles : List Attribute) : Option (VMGroupRoles × Option Text) :=
  if name.isEmpty then some (empty, some "No NAME in template for VM group.".toList)
  else if maxRoles < roles.length then none
  else some (insertLoop (empty, none) roles)

/-! ## XML -/

/-- The roles in the order of their identifiers. -/
def roleList (s : VMGroupRoles) : List VMGroupRole :=
  (s.byId.keys.insertionSort (· ≤ ·)).filterMap fun id =>
    (s.byId.lookup id).bind fun p => s.heap.lookup p

/-- `VMGroupRoles::to_xml`. -/
def toXml (s : VMGroupRoles) : Text :=
  documentText rolesRoot (s.roleList.map fun role => role.va.item attrRole)

/-- The vectors of a name (`Template::get`). -/
def vectorsOf (name : Text) (atts : List Attribute) : List AttributeMap :=
  atts.filterMap fun
    | .vector n va => if n = name then some va else none
    | .single _ _ => none

/-- One role of `VMGroupRoles::from_xml_node`. -/
def readRole (s : VMGroupRoles) (vattr : AttributeMap) : Option VMGroupRoles :=
  let rname := vattr.vectorValue attrName
  match vattr.vectorInt attrId with
  | none => none
  | some rid =>
    if rname.isEmpty then none
    else if rid ∈ s.byId ∨ rname ∈ s.byName then none
    else
      let s := if s.nextRole ≤ rid then { s with nextRole := rid + 1 } else s
      some (s.insertRole rid rname (.new vattr))

/-- `VMGroupRoles::from_xml_node` of a new group. -/
def fromXmlNode (node : XmlNode) : Option VMGroupRoles :=
  (vectorsOf attrRole (rebuildAttributes node)).foldlM readRole empty

end VMGroupRoles

/-! ## Runs -/

/-- A group: its roles and the body that was stored last. -/
structure Group where
  roles : VMGroupRoles
  body : Option Text

/-- No group. -/
def Group.none : Group := ⟨.empty, .none⟩

/-- What can happen to a group.  A virtual machine has a 32-bit number. -/
inductive Action
  | create (name : Text) (roles : List Attribute)
  | addRole (vrole : AttributeMap)
  | delRole (roleId : ℤ)
  | updateRole (oid roleId : ℤ) (vrole : AttributeMap)
  | addVm (roleName : Text) (vm : { n : ℤ // IsInt n })
  | delVm (roleName : Text) (vm : { n : ℤ // IsInt n })
  | store
  | reload

/-- The group after an action, `none` when it is not defined.  A body that cannot be read gives no
object, so nothing changes. -/
def exec (parse : Text → Option XmlNode) (g : Group) : Action → Option Group
  | .create name roles => (VMGroupRoles.insert name roles).map fun r => ⟨r.1, .none⟩
  | .addRole vrole => some { g with roles := (g.roles.addRole vrole).1 }
  | .delRole roleId => (g.roles.delRole roleId).map fun r => { g with roles := r.1 }
  | .updateRole oid roleId vrole =>
    (g.roles.updateRole oid roleId vrole).map fun r => { g with roles := r.1 }
  | .addVm roleName vm => (g.roles.addVm roleName vm).map fun r => { g with roles := r.1 }
  | .delVm roleName vm => (g.roles.delVm roleName vm).map fun r => { g with roles := r.1 }
  | .store => some { g with body := some g.roles.toXml }
  | .reload =>
    match (g.body.bind parse).bind VMGroupRoles.fromXmlNode with
    | .none => some g
    | some roles => some { g with roles := roles }

/-- An action that is not defined may leave any group. -/
def step (parse : Text → Option XmlNode) (g : Group) (e : Action × Group) : Option Group :=
  some ((exec parse g e.1).getD e.2)

end VMGroup
