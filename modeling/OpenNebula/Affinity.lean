/-
# Affinity requirements of the scheduler (`VMGroupXML.cc`, `VirtualMachineXML.cc`, `VMGroupRule.cc`)

The scheduler places the virtual machines of a group with the policy `AFFINED` in one host.  When none of a
set of them runs, the first pending one is the leader: it takes the capacity and the requirements of the
others, and each other one gets the requirement `CURRENT_VMS = leader`.  This is done for each affined
role, and then for each set of roles that the affined rules put together.

Conventions of the embedding:

* Requirements are texts that grow by ` & (…)`.  A value keeps the way the text was put together from the
  texts that the virtual machines bring, and `toText` is the text (`toText_add`).
* `pool` has the pending virtual machines and `rolesPool` the virtual machines of all groups.
* A bitset of 32 roles is a bit vector; `cpu` is a rational number, without the rounding of a `float`.
* The debug text, and the parts of the objects that these functions do not use, are left out.
-/
import OpenNebula.Contraction
import OpenNebula.ObjectCollection
import OpenNebula.TextList

open TextNumber Contraction

namespace Affinity

/-! ## Requirements and capacity of a virtual machine -/

/-- The text of the requirements, with the way it was put together. -/
inductive Requirements where
  | text (t : Text)
  | both (r s : Requirements)

namespace Requirements

def toText : Requirements → Text
  | text t => t
  | both r s => r.toText ++ " & (".toList ++ s.toText ++ ")".toList

/-- The requirements of `VirtualMachineXML::init_attributes`: the automatic ones and, if there is a
`SCHED_REQUIREMENTS`, those of the user. -/
def initial (automatic : Text) : Option Text → Requirements
  | some requirements =>
    if automatic.isEmpty then text requirements
    else text (automatic ++ " & ( ".toList ++ requirements ++ " )".toList)
  | none => text automatic

/-- `VirtualMachineXML::add_requirements`. -/
def add (r reqs : Requirements) : Requirements :=
  if reqs.toText.isEmpty then r
  else if r.toText.isEmpty then reqs
  else both r reqs

/-- The text after `add_requirements`. -/
theorem toText_add (r reqs : Requirements) :
    (r.add reqs).toText =
      if reqs.toText.isEmpty then r.toText
      else if r.toText.isEmpty then reqs.toText
      else r.toText ++ " & (".toList ++ reqs.toText ++ ")".toList := by
  unfold add
  split
  · rfl
  · split <;> rfl

end Requirements

/-- `HostShareCapacity`. -/
structure HostShareCapacity where
  cpu : ℤ
  mem : ℤ
  disk : ℤ
  nodes : List Text

/-- `VirtualMachineXML`; `numaNodes` are the attributes `NUMA_NODE` of the template. -/
structure VirtualMachineXML where
  requirements : Requirements
  cpu : ℚ
  memory : ℤ
  systemDsUsage : ℤ
  numaNodes : List Text
  affinedVms : Finset ℤ

namespace VirtualMachineXML

/-- `VirtualMachineXML::add_requirements`. -/
def addRequirements (vm : VirtualMachineXML) (reqs : Requirements) : VirtualMachineXML :=
  { vm with requirements := vm.requirements.add reqs }

/-- `VirtualMachineXML::add_affined`. -/
def addAffined (vm : VirtualMachineXML) (vmid : ℤ) : VirtualMachineXML :=
  { vm with affinedVms := insert vmid vm.affinedVms }

/-- `VirtualMachineXML::add_capacity`. -/
def addCapacity (vm : VirtualMachineXML) (sr : HostShareCapacity) : VirtualMachineXML :=
  { vm with
    cpu := vm.cpu + sr.cpu
    memory := vm.memory + sr.mem
    systemDsUsage := vm.systemDsUsage + sr.disk
    numaNodes := vm.numaNodes ++ sr.nodes }

/-- `VirtualMachineXML::reset_capacity`; the fraction of `cpu` is cut off. -/
def resetCapacity (vm : VirtualMachineXML) : VirtualMachineXML × HostShareCapacity :=
  ({ vm with cpu := 0, memory := 0, systemDsUsage := 0, numaNodes := [] },
    ⟨vm.cpu.num.tdiv vm.cpu.den, vm.memory, vm.systemDsUsage, vm.numaNodes⟩)

end VirtualMachineXML

/-- A virtual machine of a group, as the pool of all of them has it. -/
structure VirtualMachineRoleXML where
  active : Bool
  hid : ℤ

/-- `VirtualMachinePoolXML`. -/
abbrev VirtualMachinePoolXML := ℤ → Option VirtualMachineXML

/-- `VirtualMachineRolePoolXML`. -/
abbrev VirtualMachineRolePoolXML := ℤ → Option VirtualMachineRoleXML

/-! ## Sets of affined virtual machines -/

/-- The requirement to be in the host of a virtual machine. -/
def currentVms (vm : ℤ) : Text := "CURRENT_VMS = ".toList ++ intText vm

/-- `VMGroupRole::host_requirements`. -/
def hostRequirements (hosts : List ℤ) (op1 op2 : Text) : Text :=
  (" ".toList ++ op2 ++ " ".toList).intercalate
    (hosts.map fun hid => "(ID".toList ++ op1 ++ intText hid ++ ")".toList)

/-- The hosts where the set is running. -/
def runningHosts (rolesPool : VirtualMachineRolePoolXML) (vms : Finset ℤ) : Finset ℤ :=
  vms.biUnion fun v =>
    match rolesPool v with
    | some vm => if vm.active ∧ vm.hid ≠ -1 then {vm.hid} else ∅
    | none => ∅

/-- A virtual machine follows the leader of its set. -/
def follow (leader : ℤ) (pool : VirtualMachinePoolXML) (v : ℤ) : VirtualMachinePoolXML :=
  match pool v, pool leader with
  | some tmp, some vm =>
    let (reset, sr) := tmp.resetCapacity
    let vm := ((vm.addCapacity sr).addRequirements reset.requirements).addAffined v
    let tmp := reset.addRequirements (.text (currentVms leader))
    Function.update (Function.update pool leader (some vm)) v (some tmp)
  | _, _ => pool

/-- `schecule_affined_set`. -/
def scheduleAffinedSet (rolesPool : VirtualMachineRolePoolXML) (pool : VirtualMachinePoolXML)
    (vms : Finset ℤ) : VirtualMachinePoolXML :=
  if vms.card ≤ 1 then pool
  else
    let hosts := runningHosts rolesPool vms
    if hosts = ∅ then
      match (vms.sort (· ≤ ·)).dropWhile fun v => (pool v).isNone with
      | [] => pool
      | leader :: rest => rest.foldl (follow leader) pool
    else
      let reqs := .text (hostRequirements (hosts.sort (· ≤ ·)) "=".toList "|".toList)
      fun v => if v ∈ vms then (pool v).map (·.addRequirements reqs) else pool v

/-! ## Roles and rules -/

/-- `VMGroupPolicy`. -/
inductive VMGroupPolicy where
  | NONE
  | AFFINED
  | ANTI_AFFINED
  deriving DecidableEq

/-- `VMGroupRole`. -/
structure VMGroupRole where
  policy : VMGroupPolicy
  vms : Finset ℤ

/-- `VMGroupRoles::MAX_ROLES`. -/
def maxRoles : ℕ := 32

/-- The roles of an affined rule. -/
abbrev VMGroupRule := BitVec 32

/-- `VMGroupXML`: the roles with their identifiers, and the affined rules. -/
structure VMGroupXML where
  roles : List (ℤ × VMGroupRole)
  affined : List VMGroupRule
  roles_sorted : (roles.map Prod.fst).Pairwise (· < ·)
  affined_sorted : affined.Pairwise fun r s => r.toNat < s.toNat

/-- The inner loop of `VMGroupRule::reduce`: the rules that meet the reduced rule are taken into it, and
the others stay. -/
def sweep : VMGroupRule → List VMGroupRule → VMGroupRule × List VMGroupRule
  | reduced, [] => (reduced, [])
  | reduced, jt :: rules =>
    if reduced &&& jt = 0 then
      let (reduced', rest) := sweep reduced rules
      (reduced', jt :: rest)
    else sweep (reduced ||| jt) rules

theorem length_sweep_le (reduced : VMGroupRule) (rules : List VMGroupRule) :
    (sweep reduced rules).2.length ≤ rules.length := by
  induction rules generalizing reduced with
  | nil => exact le_refl _
  | cons jt rules ih =>
    rw [sweep]
    split
    · exact Nat.succ_le_succ (ih reduced)
    · exact (ih _).trans (Nat.le_succ _)

/-- A rule goes into the ordered set of the reduced rules. -/
def insertRule (rule : VMGroupRule) (rules : List VMGroupRule) : List VMGroupRule :=
  if rule ∈ rules then rules else rules.orderedInsert (fun r s => r.toNat ≤ s.toNat) rule

/-- The outer loop of `VMGroupRule::reduce`: `it` is the rule at the iterator, with the rules on both sides
of it. -/
def reduceLoop (before : List VMGroupRule) (it : VMGroupRule) (after : List VMGroupRule)
    (reduced : VMGroupRule) (reducedSet : List VMGroupRule) : List VMGroupRule :=
  let left := sweep reduced before
  let right := sweep left.1 after
  if left.2.length + right.2.length < before.length + after.length then
    reduceLoop left.2 it right.2 right.1 reducedSet
  else
    match after with
    | [] => insertRule right.1 reducedSet
    | next :: after => reduceLoop (before ++ [it]) next after next (insertRule right.1 reducedSet)
termination_by before.length + 2 * after.length
decreasing_by
  · rename_i hfewer
    have hright := length_sweep_le (sweep reduced before).1 after
    change (sweep reduced before).2.length + (sweep (sweep reduced before).1 after).2.length < _
      at hfewer
    omega
  · simp only [List.length_append, List.length_cons, List.length_nil]
    omega

/-- `VMGroupRule::reduce`. -/
def reduce : List VMGroupRule → List VMGroupRule
  | [] => []
  | it :: after => reduceLoop [] it after it []

namespace VMGroupXML

/-- The virtual machines of the roles of a rule. -/
def ruleVms (g : VMGroupXML) (rule : VMGroupRule) : Finset ℤ :=
  (Finset.range maxRoles).biUnion fun i =>
    if rule.getLsbD i then
      match g.roles.lookup (i : ℤ) with
      | some role => role.vms
      | none => ∅
    else ∅

/-- The affined roles with more than one virtual machine. -/
def affinedRoles (g : VMGroupXML) : List (ℤ × VMGroupRole) :=
  g.roles.filter fun p => p.2.policy = .AFFINED ∧ 1 < p.2.vms.card

/-- `VMGroupXML::set_affinity_requirements`. -/
def setAffinityRequirements (g : VMGroupXML) (rolesPool : VirtualMachineRolePoolXML)
    (pool : VirtualMachinePoolXML) : VirtualMachinePoolXML :=
  let intra := (g.affinedRoles.map fun p => p.2.vms).foldl (scheduleAffinedSet rolesPool) pool
  ((reduce g.affined).map g.ruleVms).foldl (scheduleAffinedSet rolesPool) intra

end VMGroupXML

end Affinity
