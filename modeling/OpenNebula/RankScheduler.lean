/-
# The rank scheduler (`src/schedm_mad/remotes/rank`)

One scheduling cycle for the pending virtual machines.  `do_vm_groups` adds the requirements of the groups;
`match_schedule` looks for hosts, datastores and networks for each virtual machine, and takes those without
any out of the list; `dispatch` goes through the list and makes the plan, where each action takes capacity
away and a leader of a group offers its host to its followers.

Conventions of the embedding:

* A pool is a list of objects with their identifiers, in order.  The virtual machines are in the pool of the
  affinity requirements; `VmInfo` has the attributes that do not change.
* The order that the policies give to the matches of a virtual machine is a parameter (`Policies`), and so
  is the test of the PCI devices and NUMA nodes of a host (`Devices`).  The priorities of the virtual machines
  are rational numbers, without the rounding of a `float`.
* `HostXML` shows the pseudo-attribute `CURRENT_VMS` of numbers; the search of floats and texts and the
  numbers that a search without a value gives are those of the object.
* The leases of a network that did not help are given back one by one.
* The pools have no datastore or network with the identifier -1, which stands for none.
* Log messages and the failures that they list are left out.
-/
import OpenNebula.Affinity
import OpenNebula.ExprBool

open TextNumber

namespace RankScheduler

/-! ## Pools -/

/-- `PoolXML`: the objects with their identifiers. -/
abbrev Pool (α : Type) := List (ℤ × α)

/-- `PoolXML::get`. -/
def Pool.get {α : Type} (pool : Pool α) (oid : ℤ) : Option α := pool.lookup oid

/-- An object of the pool is changed. -/
def Pool.modify {α : Type} (pool : Pool α) (oid : ℤ) (f : α → α) : Pool α :=
  pool.map fun p => if p.1 = oid then (p.1, f p.2) else p

/-! ## Virtual machines -/

/-- The attributes of `VirtualMachineXML` that the scheduler only reads. -/
structure VmInfo where
  resched : Bool
  resume : Bool
  hid : ℤ
  dsid : ℤ
  dsUsage : List (ℤ × ℤ)
  prereqHosts : List ℤ
  prereqDs : List ℤ
  prereqNics : List (ℤ × List ℤ)
  nics : List ℤ
  pci : List Text
  topology : Option Text

/-- `HostShareCapacity` of a virtual machine. -/
structure Request where
  vmid : ℤ
  cpu : ℤ
  mem : ℤ
  disk : ℤ
  pci : List Text
  nodes : List Text
  topology : Option Text

/-- `VirtualMachineXML::get_capacity`. -/
def getCapacity (vmid : ℤ) (info : VmInfo) (vm : Affinity.VirtualMachineXML) : Request :=
  let sr : Request := ⟨vmid, 0, 0, 0, info.pci, vm.numaNodes, info.topology⟩
  if vm.memory = 0 ∨ vm.cpu = 0 then sr
  else
    { sr with
      cpu := (vm.cpu * 100).num.tdiv (vm.cpu * 100).den
      mem := vm.memory * 1024
      disk := vm.systemDsUsage }

/-- The matches of a virtual machine; the best one is the last. -/
structure Matches where
  hosts : List ℤ
  datastores : List ℤ
  networks : ℤ → List ℤ

/-- Nothing has matched. -/
def Matches.none : Matches := ⟨[], [], fun _ => []⟩

/-- `VirtualMachineXML::add_match_host`: a virtual machine does not migrate to its own host. -/
def Matches.addHost (info : VmInfo) (m : Matches) (hid : ℤ) : Matches :=
  if info.resched ∧ info.hid = hid then m else { m with hosts := m.hosts ++ [hid] }

/-- `VirtualMachineXML::add_match_datastore`. -/
def Matches.addDatastore (m : Matches) (dsid : ℤ) : Matches :=
  { m with datastores := m.datastores ++ [dsid] }

/-! ## Datastores and networks -/

/-- `DatastoreXML`. -/
structure DatastoreXML where
  clusterIds : List ℤ
  freeMb : ℤ
  monitored : Bool
  shared : Bool

namespace DatastoreXML

/-- `DatastoreXML::test_capacity`. -/
def testCapacity (ds : DatastoreXML) (vmDiskMb : ℤ) : Bool := vmDiskMb < ds.freeMb ∨ vmDiskMb = 0

/-- `DatastoreXML::add_capacity`. -/
def addCapacity (ds : DatastoreXML) (vmDiskMb : ℤ) : DatastoreXML :=
  { ds with freeMb := ds.freeMb - vmDiskMb }

end DatastoreXML

/-- `VirtualMachineXML::test_image_datastore_capacity`. -/
def testImageDatastores (images : Pool DatastoreXML) (info : VmInfo) : Bool :=
  info.dsUsage.all fun (dsid, usage) =>
    usage = 0 || match images.get dsid with
      | some ds => ds.testCapacity usage
      | none => false

/-- `VirtualMachineXML::add_image_datastore_capacity`. -/
def addImageDatastores (images : Pool DatastoreXML) (info : VmInfo) : Pool DatastoreXML :=
  info.dsUsage.foldl (fun images (dsid, usage) => images.modify dsid (·.addCapacity usage)) images

/-- `VirtualNetworkXML`. -/
structure VirtualNetworkXML where
  clusterIds : List ℤ
  freeLeases : ℤ

/-- `VirtualNetworkXML::test_leases`. -/
def VirtualNetworkXML.testLeases (net : VirtualNetworkXML) : Bool := 0 < net.freeLeases

/-! ## Hosts -/

/-- `HostSharePCI` and `HostShareNUMA` of a host. -/
structure Devices (δ : Type) where
  test : δ → Request → Bool
  add : δ → Request → δ

variable {F δ : Type}

/-- `HostXML` with its `HostShareXML`; `vms` are the identifiers under `/HOST/VMS`. -/
structure HostXML (F δ : Type) where
  clusterId : ℤ
  object : ObjectXML F
  vms : List ℤ
  memUsage : ℤ
  cpuUsage : ℤ
  maxMem : ℤ
  maxCpu : ℤ
  freeDisk : ℤ
  dsFreeDisk : List (ℤ × ℤ)
  devices : δ
  dispatchedVms : Finset ℤ

namespace HostXML

/-- `HostXML::search`: `CURRENT_VMS` is the number that it is compared with when this virtual machine is in
the host or has been dispatched to it, and -1 when it is not. -/
def search (host : HostXML F δ) : ObjectXML F :=
  { host.object with
    searchInt := fun name value =>
      if name = some "CURRENT_VMS".toList then
        match value with
        | some n => if n ∈ host.vms ∨ n ∈ host.dispatchedVms then some n else some (-1)
        | none => host.object.searchInt name none
      else host.object.searchInt name value }

/-- `HostShareXML::test_capacity`. -/
def testCapacity (devices : Devices δ) (host : HostXML F δ) (sr : Request) : Bool :=
  devices.test host.devices sr && decide (sr.cpu ≤ host.maxCpu - host.cpuUsage) &&
    decide (sr.mem ≤ host.maxMem - host.memUsage)

/-- `HostXML::add_capacity`. -/
def addCapacity (devices : Devices δ) (sr : Request) (host : HostXML F δ) : HostXML F δ :=
  { host with
    cpuUsage := host.cpuUsage + sr.cpu
    memUsage := host.memUsage + sr.mem
    devices := devices.add host.devices sr
    dispatchedVms := insert sr.vmid host.dispatchedVms }

/-- The disk that is free for a datastore in the host. -/
def dsFree (host : HostXML F δ) (dsid : ℤ) : ℤ := (host.dsFreeDisk.lookup dsid).getD host.freeDisk

/-- `HostShareXML::test_ds_capacity`. -/
def testDsCapacity (host : HostXML F δ) (dsid vmDiskMb : ℤ) : Bool := vmDiskMb < host.dsFree dsid

/-- `HostShareXML::add_ds_capacity`. -/
def addDsCapacity (dsid vmDiskMb : ℤ) (host : HostXML F δ) : HostXML F δ :=
  { host with dsFreeDisk := (dsid, host.dsFree dsid - vmDiskMb) :: host.dsFreeDisk }

end HostXML

/-! ## Groups -/

/-- `affinity_requirements`, for the virtual machine `vmId` or for all (-1). -/
def affinityRequirements (vmId : ℤ) (policy : Affinity.VMGroupPolicy) (vms : Finset ℤ) : Text :=
  let text (op op2 : Text) : Text :=
    op2.intercalate (((vms.sort (· ≤ ·)).filter fun id => vmId = -1 ∨ vmId ≠ id).map fun id =>
      "(CURRENT_VMS ".toList ++ op ++ " ".toList ++ intText id ++ ")".toList)
  match policy with
  | .AFFINED => text "=".toList " | ".toList
  | .ANTI_AFFINED => text "!=".toList " & ".toList
  | .NONE => []

/-- `VMGroupXML` with the parts that the other passes use: the anti-affined rules, and the attributes
`HOST_AFFINED` and `HOST_ANTI_AFFINED` of each role. -/
structure VMGroupXML extends Affinity.VMGroupXML where
  antiAffined : List Affinity.VMGroupRule
  hostAffined : ℤ → Text
  hostAntiAffined : ℤ → Text

/-- Each pending virtual machine of a set gets the requirement that it is given. -/
def addRequirements (reqs : ℤ → Text) (pool : Affinity.VirtualMachinePoolXML) (vms : Finset ℤ) :
    Affinity.VirtualMachinePoolXML :=
  fun v => if v ∈ vms then (pool v).map (·.addRequirements (.text (reqs v))) else pool v

namespace VMGroupXML

/-- The requirement of a role of an anti-affined rule: apart from the other roles of the rule. -/
def ruleRequirements (g : VMGroupXML) (rule : Affinity.VMGroupRule) (i : ℕ) : Text :=
  " & ".toList.intercalate (((List.range Affinity.maxRoles).filterMap fun j =>
    if j = i ∨ rule.getLsbD j = false then none
    else
      (g.roles.lookup (j : ℤ)).map fun r => affinityRequirements (-1) .ANTI_AFFINED r.vms).filter
    (¬ ·.isEmpty))

/-- `VMGroupXML::set_antiaffinity_requirements`. -/
def setAntiaffinityRequirements (g : VMGroupXML) (pool : Affinity.VirtualMachinePoolXML) :
    Affinity.VirtualMachinePoolXML :=
  let intra := (g.roles.filter fun p => p.2.policy = .ANTI_AFFINED ∧ 1 < p.2.vms.card).foldl
    (fun pool p => addRequirements (fun v => affinityRequirements v p.2.policy p.2.vms) pool p.2.vms) pool
  g.antiAffined.foldl (fun pool rule =>
    ((List.range Affinity.maxRoles).filter (rule.getLsbD ·)).foldl (fun pool (i : ℕ) =>
      match g.roles.lookup (i : ℤ) with
      | some r => addRequirements (fun _ => g.ruleRequirements rule i) pool r.vms
      | none => pool) pool) intra

/-- `VMGroupXML::set_host_requirements`. -/
def setHostRequirements (g : VMGroupXML) (pool : Affinity.VirtualMachinePoolXML) :
    Affinity.VirtualMachinePoolXML :=
  g.roles.foldl (fun pool p =>
    let areqs := Affinity.hostRequirements (splitUnique (g.hostAffined p.1)) "=".toList "|".toList
    let aareqs := Affinity.hostRequirements (splitUnique (g.hostAntiAffined p.1)) "!=".toList "&".toList
    addRequirements (fun _ => aareqs) (addRequirements (fun _ => areqs) pool p.2.vms) p.2.vms) pool

end VMGroupXML

/-- `Scheduler::do_vm_groups`. -/
def doVmGroups (rolesPool : Affinity.VirtualMachineRolePoolXML) (groups : List VMGroupXML)
    (pool : Affinity.VirtualMachinePoolXML) : Affinity.VirtualMachinePoolXML :=
  groups.foldl (fun pool g =>
    g.setHostRequirements (g.setAntiaffinityRequirements
      (g.toVMGroupXML.setAffinityRequirements rolesPool pool))) pool

/-! ## Matching -/

/-- What the scheduler is set up with. -/
structure Policies (F δ : Type) where
  lib : CLibrary F
  devices : Devices δ
  priority : ℤ → ℚ
  sortHosts : ℤ → List ℤ → List ℤ
  sortDatastores : ℤ → List ℤ → List ℤ
  sortNetworks : ℤ → ℤ → List ℤ → List ℤ
  hostDispatchLimit : ℕ
  diffVnets : Bool

/-- The virtual machines, which stay the same while they are matched and dispatched. -/
structure Machines where
  pool : Affinity.VirtualMachinePoolXML
  info : ℤ → VmInfo

/-- An action of the plan. -/
structure ActionXML where
  vmid : ℤ
  hid : ℤ
  dsid : ℤ
  migrate : Bool
  nics : List (ℤ × ℤ)
  deriving DecidableEq

/-- The state of a cycle. -/
structure State (F δ : Type) where
  hosts : Pool (HostXML F δ)
  datastores : Pool DatastoreXML
  images : Pool DatastoreXML
  nets : Pool VirtualNetworkXML
  matched : ℤ → Matches
  vmResources : List ℤ
  plan : List ActionXML

namespace State

/-- `VirtualMachinePoolXML::remove_vm_resources`. -/
def removeVmResources (st : State F δ) (oid : ℤ) : State F δ :=
  { st with vmResources := st.vmResources.erase oid }

/-- The matches of a virtual machine are changed. -/
def setMatches (st : State F δ) (oid : ℤ) (m : Matches) : State F δ :=
  { st with matched := Function.update st.matched oid m }

end State

/-- `match_host`: the host fits and matches. -/
def matchHost (P : Policies F δ) (vm : Affinity.VirtualMachineXML) (sr : Request)
    (host : HostXML F δ) : Bool :=
  host.testCapacity P.devices sr &&
    (vm.requirements.toText.isEmpty ||
      ExprBool.evalBool P.lib host.search vm.requirements.toText == some true)

/-- The required hosts that match. -/
def matchHosts (P : Policies F δ) (hosts : Pool (HostXML F δ)) (info : VmInfo)
    (vm : Affinity.VirtualMachineXML) (sr : Request) : List ℤ :=
  info.prereqHosts.filter fun hid => (hosts.get hid).any (matchHost P vm sr)

/-- `match_system_ds`. -/
def matchSystemDs (info : VmInfo) (sr : Request) (ds : DatastoreXML) : Bool :=
  if ds.shared ∧ ¬ info.resched ∧ ¬ info.resume then ds.monitored && ds.testCapacity sr.disk else true

/-- The networks of the automatic interfaces, one interface after the other. -/
def matchNics (P : Policies F δ) (nets : Pool VirtualNetworkXML) (info : VmInfo) (oid : ℤ) :
    List (ℤ × List ℤ) → Matches → Option Matches
  | [], m => some m
  | (nic, vnets) :: rest, m =>
    if nic ∈ info.nics then
      let matched := vnets.filter fun vnet => (nets.get vnet).any (·.testLeases)
      if matched.isEmpty then none
      else
        matchNics P nets info oid rest
          { m with networks := Function.update m.networks nic (P.sortNetworks oid nic matched) }
    else matchNics P nets info oid rest m

/-- `match_schedule` for one virtual machine. -/
def matchVm (P : Policies F δ) (vms : Machines) (st : State F δ) (oid : ℤ) : State F δ :=
  match vms.pool oid with
  | none => st
  | some vm =>
    let info := vms.info oid
    let sr := getCapacity oid info vm
    if ¬ info.resched ∧ ¬ info.resume ∧ ¬ testImageDatastores st.images info then
      st.removeVmResources oid
    else
      let hosts := matchHosts P st.hosts info vm sr
      if hosts.isEmpty then st.removeVmResources oid
      else
        let m := hosts.foldl (Matches.addHost info) (st.matched oid)
        let m := { m with hosts := P.sortHosts oid m.hosts }
        if info.resched then st.setMatches oid (m.addDatastore info.dsid)
        else
          let datastores := info.prereqDs.filter fun dsid =>
            (st.datastores.get dsid).any (matchSystemDs info sr)
          if datastores.isEmpty then
            (st.setMatches oid { m with hosts := [] }).removeVmResources oid
          else
            let m := { m with datastores := P.sortDatastores oid (m.datastores ++ datastores) }
            match matchNics P st.nets info oid info.prereqNics m with
            | some m => st.setMatches oid m
            | none => (st.setMatches oid .none).removeVmResources oid

/-- `Scheduler::match_schedule`, for the pending virtual machines in the order of their identifiers. -/
def matchSchedule (P : Policies F δ) (vms : Machines) (pending : List ℤ) (st : State F δ) : State F δ :=
  if st.hosts.isEmpty ∨ st.datastores.isEmpty then st else pending.foldl (matchVm P vms) st

/-! ## Dispatching -/

/-- The best datastore for a host. -/
def pickDatastore (st : State F δ) (info : VmInfo) (sr : Request) (host : HostXML F δ)
    (candidates : List ℤ) : Option ℤ :=
  candidates.reverse.find? fun dsid =>
    (st.datastores.get dsid).any fun ds =>
      host.clusterId ∈ ds.clusterIds &&
        if ds.shared then ds.monitored && (info.resched || info.resume || ds.testCapacity sr.disk)
        else host.testDsCapacity dsid sr.disk

/-- The networks of the automatic interfaces; each one takes a lease, and the first interface without a
network is the last one that is looked at. -/
def pickNetworks (P : Policies F δ) (m : Matches) (cid : ℤ) :
    List ℤ → Pool VirtualNetworkXML → List (ℤ × ℤ) → Pool VirtualNetworkXML × List (ℤ × ℤ)
  | [], nets, picked => (nets, picked)
  | nic :: rest, nets, picked =>
    let found := (m.networks nic).reverse.find? fun netid =>
      ¬ (P.diffVnets ∧ netid ∈ picked.map Prod.snd) &&
        (nets.get netid).any fun net => cid ∈ net.clusterIds && net.testLeases
    match found with
    | none => (nets, picked)
    | some netid =>
      pickNetworks P m cid rest (nets.modify netid fun net => { net with freeLeases := net.freeLeases - 1 })
        (picked ++ [(nic, netid)])

/-- `VirtualNetworkXML::rollback_leases` of all that were picked. -/
def rollbackLeases (nets : Pool VirtualNetworkXML) (picked : List (ℤ × ℤ)) : Pool VirtualNetworkXML :=
  picked.foldl (fun nets (_, netid) =>
    nets.modify netid fun net => { net with freeLeases := net.freeLeases + 1 }) nets

/-- A leader offers its host and its datastore to the virtual machines that are affined to it. -/
def offer (vms : Machines) (affinedVms : Finset ℤ) (hid dsid : ℤ) (st : State F δ) : State F δ :=
  { st with
    matched := fun vmid =>
      if vmid ∈ affinedVms ∧ (vms.pool vmid).isSome then
        ((st.matched vmid).addHost (vms.info vmid) hid).addDatastore dsid
      else st.matched vmid }

/-- The action goes into the plan, and its capacity is taken. -/
def commit (P : Policies F δ) (vms : Machines) (oid : ℤ) (vm : Affinity.VirtualMachineXML) (sr : Request)
    (hid dsid : ℤ) (picked : List (ℤ × ℤ)) (st : State F δ) : State F δ :=
  let info := vms.info oid
  let action : ActionXML := ⟨oid, hid, dsid, info.resched, if info.resched then [] else picked⟩
  let shared := (st.datastores.get dsid).any (·.shared)
  let st : State F δ :=
    { st with
      plan := st.plan ++ [action]
      datastores := if shared ∧ ¬ info.resched ∧ ¬ info.resume then
          st.datastores.modify dsid (·.addCapacity sr.disk)
        else st.datastores
      hosts := if shared then st.hosts else st.hosts.modify hid (·.addDsCapacity dsid sr.disk)
      images := if info.resched then st.images else addImageDatastores st.images info }
  let st := offer vms vm.affinedVms hid dsid st
  { st with hosts := st.hosts.modify hid (·.addCapacity P.devices sr) }

/-- The virtual machine is tried on its hosts, from the best one on. -/
def tryHosts (P : Policies F δ) (vms : Machines) (oid : ℤ) (vm : Affinity.VirtualMachineXML) :
    List ℤ → State F δ → State F δ
  | [], st => st
  | hid :: rest, st =>
    let info := vms.info oid
    let sr := getCapacity oid info vm
    match st.hosts.get hid with
    | none => tryHosts P vms oid vm rest st
    | some host =>
      if "CURRENT_VMS".toList <:+: vm.requirements.toText ∧
          ExprBool.evalBool P.lib host.search vm.requirements.toText ≠ some true then
        tryHosts P vms oid vm rest st
      else if ¬ host.testCapacity P.devices sr then tryHosts P vms oid vm rest st
      else if 0 < P.hostDispatchLimit ∧ P.hostDispatchLimit ≤ host.dispatchedVms.card then
        tryHosts P vms oid vm rest st
      else
        match pickDatastore st info sr host (st.matched oid).datastores with
        | none => tryHosts P vms oid vm rest st
        | some dsid =>
          let (nets, picked) := pickNetworks P (st.matched oid) host.clusterId info.nics st.nets []
          if ¬ info.resched ∧ picked.length < info.nics.length then
            tryHosts P vms oid vm rest { st with nets := rollbackLeases nets picked }
          else commit P vms oid vm sr hid dsid picked { st with nets := nets }

/-- `dispatch` for one virtual machine. -/
def dispatchVm (P : Policies F δ) (vms : Machines) (st : State F δ) (oid : ℤ) : State F δ :=
  match vms.pool oid with
  | none => st
  | some vm =>
    let info := vms.info oid
    let hosts := (st.matched oid).hosts
    if ¬ hosts.isEmpty ∧ ¬ info.resched ∧ ¬ info.resume ∧ ¬ testImageDatastores st.images info then st
    else tryHosts P vms oid vm hosts.reverse st

/-- `VirtualMachineResourceMatch::sort_resources`. -/
def sortVmResources (P : Policies F δ) (resources : List ℤ) : List ℤ :=
  resources.insertionSort fun a b => P.priority a < P.priority b ∨ (P.priority a = P.priority b ∧ b ≤ a)

/-- `Scheduler::dispatch`: the plan. -/
def dispatch (P : Policies F δ) (vms : Machines) (st : State F δ) : List ActionXML :=
  ((sortVmResources P st.vmResources).reverse.foldl (dispatchVm P vms) st).plan

/-! ## A cycle -/

/-- The input of a cycle.  The pending virtual machines are in the order of their identifiers, which are numbers
of 32 bits; a virtual machine is in one role of one group; the hosts list those that are to be moved, but none
that waits for its first host; nothing has been dispatched to the hosts. -/
structure Input (F δ : Type) where
  pending : List ℤ
  pool : Affinity.VirtualMachinePoolXML
  info : ℤ → VmInfo
  rolesPool : Affinity.VirtualMachineRolePoolXML
  groups : List VMGroupXML
  hosts : Pool (HostXML F δ)
  datastores : Pool DatastoreXML
  images : Pool DatastoreXML
  nets : Pool VirtualNetworkXML
  pending_sorted : pending.Pairwise (· < ·)
  mem_pending : ∀ v, v ∈ pending ↔ (pool v).isSome
  pending_int : ∀ v ∈ pending, 0 ≤ v ∧ IsInt v
  one_role : (groups.flatMap (·.roles)).Pairwise fun p q => Disjoint p.2.vms q.2.vms
  listed_resched : ∀ p ∈ hosts, ∀ v ∈ p.2.vms, (pool v).isSome → (info v).resched = true
  not_dispatched : ∀ p ∈ hosts, p.2.dispatchedVms = ∅

/-- The state before the matching. -/
def Input.start (x : Input F δ) : State F δ where
  hosts := x.hosts
  datastores := x.datastores
  images := x.images
  nets := x.nets
  matched := fun _ => .none
  vmResources := x.pending
  plan := []

/-- The virtual machines with the requirements of their groups. -/
def Input.machines (x : Input F δ) : Machines :=
  ⟨doVmGroups x.rolesPool x.groups x.pool, x.info⟩

/-- The plan of a cycle. -/
def schedule (P : Policies F δ) (x : Input F δ) : List ActionXML :=
  dispatch P x.machines (matchSchedule P x.machines x.pending x.start)

end RankScheduler
