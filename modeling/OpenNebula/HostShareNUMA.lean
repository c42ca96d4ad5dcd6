/-
# NUMA nodes of a host (`src/host/HostShareNUMA.cc`)

A host has NUMA nodes with cores, memory and hugepages.  A core has its CPUs, each with the virtual
machines that are pinned to it, and counters of the CPUs that are used and free.  `makeTopology` finds
a place for the virtual nodes of a machine and takes it: CPUs for pinned machines, memory and
hugepages.  `del` gives it back.  Some CPUs can be reserved for the host.

Conventions of the embedding:

* A core has no field for its identifier, a node none for its number: they are the keys of the maps.
* The attributes `CORE` of a node are those that `toAttribute` makes of its cores.  The attributes of
  a machine are given as the numbers that are read from them; the list of CPUs is a text.
* The choice among the nodes where a virtual node fits goes by a floating point number.  It is a
  parameter `fit`, with values in any linear order.
* Undefined behaviour (an index outside of a list, a division by zero) has no result.
-/
import OpenNebula.TextList
import OpenNebula.OrderedMap
import OpenNebula.Transition

open TextNumber

/-- `one_util::split` into unsigned numbers. -/
def splitIds (t : Text) : List ℕ :=
  ((t.splitOn ',').filter fun part => !part.isEmpty).filterMap fun part =>
    let e := getUnsigned 10 32 part
    if e.ok then some e.value else none

/-- Numbers with commas between them. -/
def idsText (ids : List ℕ) : Text := [','].intercalate (ids.map (Nat.toDigits 10))

/-! ## Cores -/

/-- `HostShareNode::Core`. -/
structure Core where
  freeCpus : ℕ
  usedCpus : ℕ
  vmsThread : ℕ
  dedicated : Bool
  cpus : OrderedMap ℕ (Multiset ℕ)
  reservedCpus : Finset ℕ

/-- The attributes of a core. -/
structure CoreAttribute where
  id : ℕ
  cpus : Text
  free : ℕ
  dedicated : Bool

namespace Core

/-- `Core::set_cpu_usage`. -/
def setCpuUsage (c : Core) : Core :=
  if c.dedicated then { c with freeCpus := 0, usedCpus := 1 }
  else
    let used := (c.cpus.map fun cpu => cpu.2.card).sum
    let free := (c.cpus.length - c.reservedCpus.card) * c.vmsThread % 2 ^ 32
    { c with usedCpus := used, freeCpus := if used > free then 0 else free - used }

/-- The CPU and the machine of a part of the text: -1 without a machine. -/
def readThread (thread : Text) : Option (ℕ × ℤ) :=
  let e := getUnsigned 10 32 (thread.map fun ch => if ch = ':' then ' ' else ch)
  if e.ok then
    let v := getSigned 10 32 e.rest
    some (e.value, if v.ok then v.value else -1)
  else none

/-- One turn of the constructor. -/
def addThread (c : Core) (thread : Text) : Core :=
  match readThread thread with
  | none => c
  | some (cpuId, vmId) =>
    if 0 ≤ vmId then
      { c with cpus := OrderedMap.alter cpuId (fun o => vmId.toNat ::ₘ o.getD 0) c.cpus }
    else if vmId = -2 then
      { c with
        cpus := OrderedMap.alter cpuId (fun o => o.getD 0) c.cpus
        reservedCpus := insert cpuId c.reservedCpus }
    else { c with cpus := OrderedMap.alter cpuId (fun o => o.getD 0) c.cpus }

/-- `Core::Core`. -/
def new (text : Text) (vmsThread : ℕ) (dedicated : Bool) : Core :=
  (((text.splitOn ',').filter fun thread => !thread.isEmpty).foldl addThread
    ⟨0, 0, vmsThread, dedicated, [], ∅⟩).setCpuUsage

/-- A CPU and a machine. -/
def threadText (cpuId : ℕ) (vmId : ℤ) : Text := Nat.toDigits 10 cpuId ++ ":".toList ++ intText vmId

/-- The parts of the text for one CPU. -/
def cpuTexts (reserved : Finset ℕ) (cpu : ℕ × Multiset ℕ) : List Text :=
  if cpu.1 ∈ reserved then [threadText cpu.1 (-2)]
  else if cpu.2 = 0 then [threadText cpu.1 (-1)]
  else cpu.2.sort.map fun vm : ℕ => threadText cpu.1 vm

/-- `Core::to_attribute`. -/
def toAttribute (id : ℕ) (c : Core) : CoreAttribute where
  id := id
  cpus := [','].intercalate (c.cpus.flatMap (cpuTexts c.reservedCpus))
  free := c.freeCpus
  dedicated := c.dedicated

/-- The body of `HostShareNode::reserve_cpus` for one core. -/
def reserveCpus (ids : List ℕ) (c : Core) : Core :=
  let r := c.cpus.foldl (fun (acc : Finset ℕ × Bool) (cpu : ℕ × Multiset ℕ) =>
    if cpu.1 ∈ ids then
      if cpu.2 = 0 then (insert cpu.1 acc.1, true) else acc
    else if cpu.1 ∈ acc.1 then (acc.1.erase cpu.1, true)
    else acc) (c.reservedCpus, false)
  if r.2 then { c with reservedCpus := r.1 }.setCpuUsage else c

/-- The core can be dedicated to a machine. -/
def dedicable (c : Core) : Bool := c.reservedCpus.card < c.cpus.length && c.usedCpus = 0

/-- The core is dedicated to a machine: its first CPU gets it. -/
def dedicate (vmid : ℕ) (c : Core) : Core :=
  match c.cpus with
  | [] => c
  | cpu :: cpus =>
    { c with
      cpus := (cpu.1, vmid ::ₘ cpu.2) :: cpus
      dedicated := true
      usedCpus := 1
      freeCpus := 0 }

/-- The loop over the CPUs of a core: `cToAlloc` of them are given at most, and `tcpus`. -/
def takeCpus (vmid vmsThread : ℕ) (reserved : Finset ℕ) :
    OrderedMap ℕ (Multiset ℕ) → ℕ → ℕ → OrderedMap ℕ (Multiset ℕ) × List ℕ
  | [], _, _ => ([], [])
  | cpu :: cpus, cToAlloc, tcpus =>
    if cToAlloc = 0 ∨ tcpus = 0 then (cpu :: cpus, [])
    else if cpu.2.card ≥ vmsThread ∨ cpu.1 ∈ reserved then
      let r := takeCpus vmid vmsThread reserved cpus cToAlloc tcpus
      (cpu :: r.1, r.2)
    else
      let r := takeCpus vmid vmsThread reserved cpus (cToAlloc - 1) (tcpus - 1)
      ((cpu.1, vmid ::ₘ cpu.2) :: r.1, cpu.1 :: r.2)

/-- What a core gives to a machine in groups of `tc` threads, and its CPUs. -/
def takeThreads (vmid tc tcpus : ℕ) (c : Core) : Core × List ℕ :=
  let r := takeCpus vmid c.vmsThread c.reservedCpus c.cpus (c.freeCpus / tc * tc) tcpus
  ({ c with
    cpus := r.1
    freeCpus := c.freeCpus - r.2.length
    usedCpus := c.usedCpus + r.2.length }, r.2)

/-- The body of `HostShareNode::del_cpu` for one core: the machine leaves the CPUs. -/
def delCpus (ids : List ℕ) (vmid : ℕ) (c : Core) : Core :=
  if ∃ id ∈ ids, id ∈ c.cpus.keys then
    { c with
      cpus := c.cpus.map fun (cpu : ℕ × Multiset ℕ) =>
        if cpu.1 ∈ ids then (cpu.1, cpu.2.filter fun vm => vm ≠ vmid) else cpu
      dedicated := false }.setCpuUsage
  else c

end Core

/-! ## Nodes -/

/-- `HostShareNode::HugePage`. -/
structure HugePage where
  nr : ℕ
  usage : ℕ
  allocated : ℕ

/-- `HostShareNode`. -/
structure HostShareNode where
  cores : OrderedMap ℕ Core
  pages : OrderedMap ℕ HugePage
  totalMem : ℤ
  memUsage : ℤ
  distance : List ℤ
  allocatedCpus : ℕ
  allocatedMemory : ℤ

namespace HostShareNode

/-- A node without anything. -/
def empty : HostShareNode := ⟨[], [], 0, 0, [], 0, 0⟩

/-- `HostShareNode::reserve_cpus`. -/
def reserveCpus (ids : List ℕ) (n : HostShareNode) : HostShareNode :=
  { n with cores := n.cores.map fun e => (e.1, e.2.reserveCpus ids) }

/-- The loop of `allocate_dedicated_cpus`: the cores, the CPUs that are given and the number that is
missing. -/
def dedicateCores (vmid : ℕ) : OrderedMap ℕ Core → ℕ → OrderedMap ℕ Core × List ℕ × ℕ
  | [], tcpus => ([], [], tcpus)
  | e :: cores, tcpus =>
    if tcpus = 0 then (e :: cores, [], 0)
    else if e.2.dedicable then
      let r := dedicateCores vmid cores (tcpus - 1)
      ((e.1, e.2.dedicate vmid) :: r.1, (e.2.cpus.keys.take 1) ++ r.2.1, r.2.2)
    else
      let r := dedicateCores vmid cores tcpus
      (e :: r.1, r.2.1, r.2.2)

/-- `HostShareNode::allocate_dedicated_cpus`: the CPUs, when there are enough cores. -/
def allocateDedicatedCpus (vmid tcpus : ℕ) (n : HostShareNode) : HostShareNode × Option (List ℕ) :=
  let r := dedicateCores vmid n.cores tcpus
  ({ n with cores := r.1 }, if r.2.2 = 0 then some r.2.1 else none)

/-- The loop of `allocate_ht_cpus`. -/
def takeCores (vmid tc : ℕ) : OrderedMap ℕ Core → ℕ → OrderedMap ℕ Core × List ℕ × ℕ
  | [], tcpus => ([], [], tcpus)
  | e :: cores, tcpus =>
    if tcpus = 0 then (e :: cores, [], 0)
    else
      let taken := e.2.takeThreads vmid tc tcpus
      let r := takeCores vmid tc cores (tcpus - taken.2.length)
      ((e.1, taken.1) :: r.1, taken.2 ++ r.2.1, r.2.2)

/-- `HostShareNode::allocate_ht_cpus`: the CPUs, when there are enough. -/
def allocateHtCpus (vmid tcpus tc : ℕ) (n : HostShareNode) : HostShareNode × Option (List ℕ) :=
  let r := takeCores vmid tc n.cores tcpus
  ({ n with cores := r.1 }, if r.2.2 = 0 then some r.2.1 else none)

/-- The CPUs of a virtual node. -/
def allocateCpus (vmid : ℕ) (dedicated : Bool) (tc tcpus : ℕ) (n : HostShareNode) :
    HostShareNode × Option (List ℕ) :=
  if dedicated then n.allocateDedicatedCpus vmid tcpus else n.allocateHtCpus vmid tcpus tc

/-- The loop of `del_cpu`.  A CPU is looked for in the cores up to the first that has it. -/
def delFromCores (vmid : ℕ) : List ℕ → OrderedMap ℕ Core → OrderedMap ℕ Core
  | _, [] => []
  | ids, e :: cores =>
    (e.1, e.2.delCpus ids vmid) ::
      delFromCores vmid (ids.filter fun id => id ∉ e.2.cpus.keys) cores

/-- `HostShareNode::del_cpu`. -/
def delCpu (cpuIds : Text) (vmid : ℕ) (n : HostShareNode) : HostShareNode :=
  { n with cores := delFromCores vmid (splitIds cpuIds) n.cores }

/-- `HostShareNode::set_core`. -/
def setCore (id : ℕ) (cpus : Text) (vmsThread : ℕ) (n : HostShareNode) : HostShareNode :=
  match n.cores.find id with
  | some _ => n
  | none => { n with cores := n.cores.alter id fun _ => Core.new cpus vmsThread false }

/-- `HostShareNode::set_hugepage`. -/
def setHugepage (size nr : ℕ) (n : HostShareNode) : HostShareNode :=
  { n with pages := n.pages.alter size fun
    | none => ⟨nr, 0, 0⟩
    | some page => { page with nr := nr } }

/-- `HostShareNode::free_capacity`: the groups of `tc` threads that are free. -/
def freeGroups (tc : ℕ) (n : HostShareNode) : ℕ :=
  (n.cores.map fun e => e.2.freeCpus / tc).sum % 2 ^ 32

/-- `HostShareNode::free_dedicated_capacity`: the cores that can be dedicated. -/
def freeDedicated (n : HostShareNode) : ℕ := (n.cores.filter fun e => e.2.dedicable).length % 2 ^ 32

/-- `HostShareNode::ls_cpus` without the reserved ones.  The last character is taken from a text that
must not be empty. -/
def lsCpus (n : HostShareNode) : Option Text :=
  let ids := n.cores.flatMap fun e => e.2.cpus.keys.filter fun id => id ∉ e.2.reservedCpus
  if ids = [] then none else some (idsText ids)

/-- The CPUs of a node that fit: threads in free groups less those that have been allotted. -/
def cpuFit (totalCpus threads : ℕ) (dedicated : Bool) (n : HostShareNode) : Option ℕ :=
  let fcpu := if dedicated then n.freeDedicated else n.freeGroups threads
  let fcpu := (fcpu + 2 ^ 32 - n.allocatedCpus / threads % 2 ^ 32) % 2 ^ 32
  let cpus := fcpu * threads % 2 ^ 32
  if cpus ≥ totalCpus then some cpus else none

/-- The memory and the hugepages of a node are enough. -/
def memFit (memory : ℤ) (hpszKb : ℕ) (n : HostShareNode) : Bool :=
  let fmem := n.totalMem - n.memUsage - n.allocatedMemory
  let hpFit :=
    hpszKb = 0 ||
      match n.pages.find hpszKb with
      | none => false
      | some page =>
        let fhp := ((page.nr : ℤ) - page.usage - page.allocated) % 2 ^ 64
        decide (fhp > 0) && decide (fhp ≥ memory / hpszKb)
  decide (fmem ≥ memory) && hpFit

/-- The temporary counters of a node are cleared. -/
def clearAllocated (n : HostShareNode) : HostShareNode :=
  { n with
    allocatedCpus := 0
    allocatedMemory := 0
    pages := n.pages.map fun p => (p.1, { p.2 with allocated := 0 }) }

end HostShareNode

/-! ## Requests -/

/-- `HostShare::PinPolicy`. -/
inductive PinPolicy where
  | none | core | thread | shared
  deriving DecidableEq, Repr

/-- `HostShare::str_to_pin_policy`. -/
def strToPinPolicy (s : Text) : PinPolicy :=
  let s := s.map Char.toUpper
  if s = "CORE".toList then .core
  else if s = "THREAD".toList then .thread
  else if s = "SHARED".toList then .shared
  else .none

/-- The topology of a machine.  The affinity is -1 when there is none, the other numbers are 0. -/
structure Topology where
  pinPolicy : Text
  nodeAffinity : ℤ
  hugepageSize : ℕ
  threads : ℤ
  cores : ℤ
  sockets : ℤ

/-- A virtual node, with its place on a host. -/
structure VmNode where
  totalCpus : ℕ
  memory : Option ℤ
  nodeId : Option ℤ
  memNodeId : Option ℤ
  cpus : Option Text

/-- `HostShareCapacity`.  The identifier of a machine is an `int` that is not negative. -/
structure NumaCapacity where
  vmid : Fin (2 ^ 31)
  vcpu : ℕ
  mem : ℤ
  topology : Option Topology
  nodes : List VmNode
  pciNodes : List ℤ

/-- `NUMANodeRequest`. -/
structure NodeRequest where
  totalCpus : ℕ
  memory : ℤ
  nodeId : ℤ
  memNodeId : ℤ
  cpuIds : List ℕ

namespace VmNode

/-- The node asks for CPUs and memory. -/
def isRequest (v : VmNode) : Bool := v.totalCpus > 0 && v.memory.getD 0 > 0

/-- The place of a node is written into its attributes. -/
def assign (v : VmNode) (nr : NodeRequest) : VmNode :=
  { v with
    nodeId := some nr.nodeId
    cpus := some (if nr.totalCpus = 0 then [] else idsText nr.cpuIds)
    memNodeId := if nr.memory = 0 then none else some nr.memNodeId }

end VmNode

/-- The requests of the virtual nodes. -/
def nodeRequests (nodes : List VmNode) : List NodeRequest :=
  (nodes.filter VmNode.isRequest).map fun v => ⟨v.totalCpus, v.memory.getD 0, -1, -1, []⟩

/-- The requests that have been served, back in the virtual nodes. -/
def writeBack : List VmNode → List NodeRequest → List VmNode
  | [], _ => []
  | v :: vs, nrs =>
    if v.isRequest then
      match nrs with
      | [] => v :: vs
      | nr :: nrs => v.assign nr :: writeBack vs nrs
    else v :: writeBack vs nrs

/-! ## The host -/

/-- `HostShareNUMA`. -/
structure HostShareNUMA where
  threadsCore : ℕ
  nodes : OrderedMap ℤ HostShareNode

namespace HostShareNUMA

/-- A change of one node. -/
def modify (id : ℤ) (f : HostShareNode → HostShareNode) (s : HostShareNUMA) : HostShareNUMA :=
  { s with nodes := s.nodes.modify id f }

/-- `HostShareNUMA::get_node`, and a change of the node: it is made if it is not there. -/
def getNode (id : ℤ) (f : HostShareNode → HostShareNode) (s : HostShareNUMA) : HostShareNUMA :=
  { s with nodes := s.nodes.alter id fun o => f (o.getD HostShareNode.empty) }

section Schedule

variable {F : Type*} [LinearOrder F] (fit : ℕ → ℕ → Bool → F)

/-- The nodes where the CPUs fit, the best first. -/
def cpuFits (totalCpus threads : ℕ) (dedicated : Bool) (pciIdx : ℤ) (s : HostShareNUMA) : List ℤ :=
  let fits := s.nodes.filterMap fun e =>
    (e.2.cpuFit totalCpus threads dedicated).map fun cpus =>
      (fit totalCpus cpus (decide (pciIdx = e.1)), e.1)
  (fits.insertionSort fun a b => b.1 < a.1 ∨ (b.1 = a.1 ∧ b.2 ≤ a.2)).map Prod.snd

/-- The nodes where the memory fits. -/
def memFits (memory : ℤ) (hpszKb : ℕ) (s : HostShareNUMA) : List ℤ :=
  (s.nodes.filter fun e => e.2.memFit memory hpszKb).map Prod.fst

/-- The first node whose memory node at a distance fits. -/
def tryFits (s : HostShareNUMA) (memFits : List ℤ) (hop : ℕ) : List ℤ → Option (Option (ℤ × ℤ))
  | [] => some none
  | snode :: rest =>
    match (s.nodes.find snode).bind fun n => n.distance[hop]? with
    | none => none
    | some memSnode =>
      if memSnode ∈ memFits then some (some (snode, memSnode)) else tryFits s memFits hop rest

/-- The distances one after the other. -/
def tryHops (s : HostShareNUMA) (memFits fits : List ℤ) : List ℕ → Option (Option (ℤ × ℤ))
  | [] => some none
  | hop :: hops =>
    match tryFits s memFits hop fits with
    | none => none
    | some (some place) => some (some place)
    | some none => tryHops s memFits fits hops

/-- The temporary counters of the node of the CPUs.  The memory is counted there too, and not at the
node of the memory. -/
def allot (nr : NodeRequest) (hpszKb : ℕ) (n : HostShareNode) : HostShareNode :=
  { n with
    allocatedCpus := (n.allocatedCpus + nr.totalCpus) % 2 ^ 32
    allocatedMemory := n.allocatedMemory + nr.memory
    pages :=
      if hpszKb = 0 then n.pages
      else n.pages.modify hpszKb fun page =>
        { page with allocated := page.allocated + (nr.memory / hpszKb).toNat } }

/-- `HostShareNUMA::schedule_nodes`. -/
def scheduleNodes (nr : NodeRequest) (threads : ℕ) (dedicated : Bool) (hpszKb : ℕ) (pciIdx : ℤ)
    (doAlloc : Bool) (s : HostShareNUMA) : Option (Bool × NodeRequest × HostShareNUMA) :=
  let cpuFits := cpuFits fit nr.totalCpus threads dedicated pciIdx s
  let memFits := memFits nr.memory hpszKb s
  if cpuFits = [] ∨ memFits = [] then some (false, nr, s)
  else if !doAlloc then some (true, nr, s)
  else
    match tryHops s memFits cpuFits (List.range s.nodes.length) with
    | none => none
    | some none => some (false, nr, s)
    | some (some (snode, memSnode)) =>
      some (true, { nr with nodeId := snode, memNodeId := memSnode }, s.modify snode (allot nr hpszKb))

/-- The virtual nodes one after the other, up to the first that does not fit. -/
def scheduleAll (threads : ℕ) (dedicated : Bool) (hpszKb : ℕ) (pciNodes : List ℤ)
    (doAlloc : Bool) : ℕ → List NodeRequest → HostShareNUMA → Option (Bool × List NodeRequest × HostShareNUMA)
  | _, [], s => some (true, [], s)
  | idx, nr :: nrs, s =>
    let useNode : ℤ := if (idx : ℤ) ∈ pciNodes then idx else -1
    match scheduleNodes fit nr threads dedicated hpszKb useNode doAlloc s with
    | none => none
    | some (false, nr', s') => some (false, nr' :: nrs, s')
    | some (true, nr', s') =>
      (scheduleAll threads dedicated hpszKb pciNodes doAlloc (idx + 1) nrs s').map fun r =>
        (r.1, nr' :: r.2.1, r.2.2)

/-- The temporary counters are cleared. -/
def clearAllocated (s : HostShareNUMA) : HostShareNUMA :=
  { s with nodes := s.nodes.map fun e => (e.1, e.2.clearAllocated) }

/-- The loop over the threads for each core, the greatest first; the number that fits. -/
def tryThreads (dedicated : Bool) (hpszKb : ℕ) (pciNodes : List ℤ) (doAlloc : Bool) :
    List ℕ → List NodeRequest → HostShareNUMA →
      Option (Option ℕ × List NodeRequest × HostShareNUMA)
  | [], nrs, s => some (none, nrs, s)
  | tc :: tcs, nrs, s =>
    match scheduleAll fit tc dedicated hpszKb pciNodes doAlloc 0 nrs s.clearAllocated with
    | none => none
    | some (true, nrs', s') => some (some tc, nrs', s')
    | some (false, nrs', s') => tryThreads dedicated hpszKb pciNodes doAlloc tcs nrs' s'

end Schedule

/-- The threads for each core that fit the host and all the virtual nodes, the greatest first; `none`
when the number of threads of a core of the host is not known. -/
def validThreads (threadsCore : ℕ) (dedicated : Bool) (threads : ℤ) (nrs : List NodeRequest) :
    Option (List ℕ) :=
  if dedicated then some [1]
  else
    let tMax := (threads % 2 ^ 32).toNat
    let tMax := if tMax > threadsCore ∨ tMax = 0 then threadsCore else tMax
    if tMax = 0 then none
    else
      some (((List.range (Nat.log 2 tMax + 1)).reverse.map fun i => 2 ^ i).filter fun tc =>
        !nrs.isEmpty && nrs.all fun nr => nr.totalCpus % tc = 0)

/-- The memory and the hugepages of a virtual node are taken. -/
def takeMemory (hpszKb : ℕ) (nr : NodeRequest) (s : HostShareNUMA) : Bool × HostShareNUMA :=
  match s.nodes.find nr.memNodeId with
  | none => (false, s)
  | some m =>
    let s := s.modify nr.memNodeId fun m => { m with memUsage := m.memUsage + nr.memory }
    if hpszKb = 0 then (true, s)
    else
      match m.pages.find hpszKb with
      | none => (false, s)
      | some _ =>
        (true,
          s.modify nr.memNodeId fun m =>
            { m with pages := m.pages.modify hpszKb fun page =>
              { page with usage := page.usage + (nr.memory / hpszKb).toNat } })

/-- The place of one virtual node is taken: CPUs, memory and hugepages.  That the CPUs are not enough
makes no difference. -/
def placeOne (vmid : ℕ) (dedicated : Bool) (tc hpszKb : ℕ) (nr : NodeRequest) (s : HostShareNUMA) :
    Option NodeRequest × HostShareNUMA :=
  match s.nodes.find nr.nodeId with
  | none => (none, s)
  | some n =>
    let ids := (n.allocateCpus vmid dedicated tc nr.totalCpus).2
    let r := takeMemory hpszKb nr
      (s.modify nr.nodeId fun n => (n.allocateCpus vmid dedicated tc nr.totalCpus).1)
    (if r.1 then some { nr with cpuIds := ids.getD [] } else none, r.2)

/-- The virtual nodes one after the other, up to the first without its nodes. -/
def placeAll (vmid : ℕ) (dedicated : Bool) (tc hpszKb : ℕ) :
    List NodeRequest → HostShareNUMA → Bool × List NodeRequest × HostShareNUMA
  | [], s => (true, [], s)
  | nr :: nrs, s =>
    match placeOne vmid dedicated tc hpszKb nr s with
    | (none, s') => (false, [], s')
    | (some nr', s') =>
      let r := placeAll vmid dedicated tc hpszKb nrs s'
      (r.1, nr' :: r.2.1, r.2.2)

/-- A machine without pinned CPUs is written into its virtual nodes. -/
def writeNode (nodeId : ℤ) (cpuIds : Text) (v : VmNode) : VmNode :=
  { v with
    nodeId := some nodeId
    memNodeId := if v.memory.getD 0 = 0 then none else some nodeId
    cpus := some (if v.totalCpus = 0 then [] else cpuIds) }

/-- The memory and the hugepages of a machine without pinned CPUs are taken. -/
def takeWhole (sr : NumaCapacity) (nodeId : ℤ) (hpszKb : ℕ) (n : HostShareNode)
    (s : HostShareNUMA) : Option (ℤ × NumaCapacity × HostShareNUMA) :=
  n.lsCpus.map fun cpuIds =>
    (0, { sr with nodes := sr.nodes.map (writeNode nodeId cpuIds) },
      s.modify nodeId fun m =>
        { m with
          memUsage := m.memUsage + sr.mem
          pages :=
            if hpszKb = 0 then m.pages
            else m.pages.modify hpszKb fun page =>
              { page with usage := page.usage + (sr.mem / hpszKb).toNat } })

/-- The node has the memory and the hugepages, and the number of hugepages that are free. -/
def wholeFit (mem : ℤ) (hpszKb : ℕ) (n : HostShareNode) : Option ℤ :=
  let freeMem := n.totalMem - n.memUsage
  if freeMem ≤ 0 ∨ freeMem < mem then none
  else if hpszKb = 0 then some 0
  else
    match n.pages.find hpszKb with
    | none => none
    | some page =>
      let fhp := (page.nr : ℤ) - page.usage
      if fhp ≤ 0 ∨ fhp < mem / hpszKb then none else some fhp

/-- `HostShareNUMA::make_hugepage_topology`: the first node with most hugepages. -/
def makeHugepageTopology (sr : NumaCapacity) (hpszKb : ℕ) (doAlloc : Bool) (s : HostShareNUMA) :
    Option (ℤ × NumaCapacity × HostShareNUMA) :=
  let best := s.nodes.foldl (fun best e =>
    match wholeFit sr.mem hpszKb e.2 with
    | none => best
    | some fhp =>
      match best with
      | none => if fhp > 0 then some (fhp, e) else none
      | some b => if fhp > b.1 then some (fhp, e) else some b) none
  match best with
  | none => some (-1, sr, s)
  | some (_, e) => if doAlloc then takeWhole sr e.1 hpszKb e.2 s else some (0, sr, s)

/-- `HostShareNUMA::make_affined_topology`. -/
def makeAffinedTopology (sr : NumaCapacity) (nodeId : ℤ) (hpszKb : ℕ) (doAlloc : Bool)
    (s : HostShareNUMA) : Option (ℤ × NumaCapacity × HostShareNUMA) :=
  match s.nodes.find nodeId with
  | none => some (-1, sr, s)
  | some n =>
    match wholeFit sr.mem hpszKb n with
    | none => some (-1, sr, s)
    | some _ => if doAlloc then takeWhole sr nodeId hpszKb n s else some (0, sr, s)

/-- The hugepages of a machine in KB. -/
def hugepageKb (t : Topology) : ℕ := t.hugepageSize * 1024 % 2 ^ 64

section Topology

variable {F : Type*} [LinearOrder F] (fit : ℕ → ℕ → Bool → F)

/-- The places of the virtual nodes of a pinned machine: the threads for each core and the requests
with their nodes; without them when the machine does not fit. -/
def planTopology (sr : NumaCapacity) (t : Topology) (doAlloc : Bool) (s : HostShareNUMA) :
    Option (Option (ℤ × List NodeRequest) × HostShareNUMA) :=
  let dedicated : Bool := strToPinPolicy t.pinPolicy = .core
  let nrs := nodeRequests sr.nodes
  match validThreads s.threadsCore dedicated t.threads nrs with
  | none => none
  | some tValid =>
    if !dedicated && t.threads ≠ 0 && !(tValid.any fun tc : ℕ => (tc : ℤ) = t.threads) then
      some (none, s)
    else
      let tValid : List ℕ :=
        if !dedicated && t.threads ≠ 0 then tValid.filter fun tc : ℕ => (tc : ℤ) = t.threads
        else tValid
      let pciNodes := sr.pciNodes.filter fun id => id ≠ -1
      match tryThreads fit dedicated (hugepageKb t) pciNodes doAlloc tValid nrs s with
      | none => none
      | some (some tc, nrs', s') => some (some (tc, nrs'), s')
      | some (none, _, s') => some (if nrs = [] then some (t.threads, []) else none, s')

/-- The virtual nodes of a pinned machine that fits are placed, and its topology is changed. -/
def allocateNodes (sr : NumaCapacity) (t : Topology) (tc : ℤ) (nrs : List NodeRequest)
    (s : HostShareNUMA) : Option (ℤ × NumaCapacity × HostShareNUMA) :=
  match placeAll sr.vmid (strToPinPolicy t.pinPolicy = .core) tc.toNat (hugepageKb t) nrs s with
  | (false, done, s') => some (-1, { sr with nodes := writeBack sr.nodes done }, s')
  | (true, done, s') =>
    let sockets := (tc * t.sockets % 2 ^ 32).toNat
    if sockets = 0 then none
    else
      some (0,
        { sr with
          nodes := writeBack sr.nodes done
          topology := some { t with threads := tc, cores := (sr.vcpu / sockets : ℕ) } },
        s')

/-- `HostShareNUMA::make_topology`. -/
def makeTopology (sr : NumaCapacity) (doAlloc : Bool) (s : HostShareNUMA) :
    Option (ℤ × NumaCapacity × HostShareNUMA) :=
  match sr.topology with
  | none => some (0, sr, s)
  | some t =>
    if sr.nodes = [] then some (0, sr, s)
    else if t.nodeAffinity ≠ -1 then makeAffinedTopology sr t.nodeAffinity (hugepageKb t) doAlloc s
    else if hugepageKb t ≠ 0 ∧ strToPinPolicy t.pinPolicy = .none then
      makeHugepageTopology sr (hugepageKb t) doAlloc s
    else
      match planTopology fit sr t doAlloc s with
      | none => none
      | some (none, s') => some (-1, sr, s')
      | some (some (tc, nrs), s') =>
        if doAlloc then allocateNodes sr t tc nrs s' else some (0, sr, s')

end Topology

/-- The turn of `del` for one virtual node. -/
def delNode (vmid hpszKb : ℕ) (v : VmNode) (s : HostShareNUMA) : HostShareNUMA :=
  match v.nodeId, v.memNodeId, v.cpus, v.memory with
  | some nodeId, some memNodeId, some cpuIds, some memory =>
    let s := (s.getNode nodeId id).getNode memNodeId id
    let s := s.modify nodeId fun n => n.delCpu cpuIds vmid
    s.modify memNodeId fun n =>
      { n with
        memUsage := n.memUsage - memory
        pages :=
          if hpszKb = 0 then n.pages
          else n.pages.modify hpszKb fun page =>
            let numHp := (memory / hpszKb).toNat
            { page with usage := if page.usage > numHp then page.usage - numHp else 0 } }
  | _, _, _, _ => s

/-- `HostShareNUMA::del`. -/
def del (sr : NumaCapacity) (s : HostShareNUMA) : HostShareNUMA :=
  let hpszKb := (sr.topology.map hugepageKb).getD 0
  sr.nodes.foldl (fun s v => delNode sr.vmid hpszKb v s) s

/-- `HostShareNUMA::reserve_cpus`. -/
def reserveCpus (cpuIds : Text) (s : HostShareNUMA) : HostShareNUMA :=
  { s with nodes := s.nodes.map fun e => (e.1, e.2.reserveCpus (splitIds cpuIds)) }

/-- `HostShareNUMA::update_cpu_usage`. -/
def updateCpuUsage (vmsThread : ℕ) (s : HostShareNUMA) : HostShareNUMA :=
  { s with nodes := s.nodes.map fun e =>
    (e.1, { e.2 with cores := e.2.cores.map fun c =>
      (c.1, { c.2 with vmsThread := vmsThread }.setCpuUsage) }) }

/-- What the monitor reports: cores, hugepages, and the memory and the distances of the nodes. -/
structure Report where
  cores : List (ℤ × ℕ × Text)
  pages : List (ℤ × ℕ × ℕ)
  memory : List (ℤ × Option ℤ × List ℤ)

/-- `HostShareNUMA::set_monitorization`. -/
def setMonitorization (ht : Report) (vmsThread : ℕ) (s : HostShareNUMA) : HostShareNUMA :=
  let s := ht.cores.foldl (fun s c => s.getNode c.1 fun n => n.setCore c.2.1 c.2.2 vmsThread) s
  let s := ht.pages.foldl (fun s p => s.getNode p.1 fun n => n.setHugepage p.2.1 p.2.2) s
  ht.memory.foldl (fun s m => s.getNode m.1 fun n =>
    { n with totalMem := m.2.1.getD n.totalMem, distance := m.2.2 }) s

/-- A core that is written and read back. -/
def reloadCore (vmsThread id : ℕ) (c : Core) : Core :=
  let attr := c.toAttribute id
  Core.new attr.cpus vmsThread attr.dedicated

/-- `HostShareNUMA::from_xml_node` of the host as it was written.  The threads of a core are counted in
the first core of the first node, which must be there. -/
def reload (vmsThread : ℕ) (s : HostShareNUMA) : Option HostShareNUMA :=
  let nodes := s.nodes.map fun e =>
    (e.1, { e.2 with
      cores := e.2.cores.map fun c => (c.1, reloadCore vmsThread c.1 c.2)
      pages := e.2.pages.map fun p => (p.1, { p.2 with allocated := 0 })
      allocatedCpus := 0
      allocatedMemory := 0 })
  match nodes with
  | [] => some ⟨1, nodes⟩
  | e :: _ => e.2.cores.head?.map fun c => ⟨c.2.cpus.length, nodes⟩

end HostShareNUMA

/-! ## Runs -/

/-- The part of `HostShare` that is about NUMA. -/
structure NumaShare where
  vmsThread : ℕ
  numa : HostShareNUMA

namespace NumaShare

/-- A new host. -/
def start : NumaShare := ⟨1, ⟨1, []⟩⟩

/-- Operations on the nodes of a host. -/
inductive Op where
  | setMonitorization (ht : HostShareNUMA.Report)
  | updateCapacity (vthread : Option ℕ) (cpuIds : Option Text)
  | add (sr : NumaCapacity)
  | del (sr : NumaCapacity)
  | reload

/-- `HostShare::update_capacity`. -/
def updateCapacity (vthread : Option ℕ) (cpuIds : Option Text) (s : NumaShare) : NumaShare :=
  let s :=
    match vthread with
    | none => s
    | some vt =>
      let vt := if vt = 0 then 1 else vt
      ⟨vt, s.numa.updateCpuUsage vt⟩
  match cpuIds with
  | none => s
  | some ids => { s with numa := s.numa.reserveCpus ids }

variable {F : Type*} [LinearOrder F] (fit : ℕ → ℕ → Bool → F)

/-- The host after an operation; `none` when its behaviour is not defined. -/
def step (s : NumaShare) : Op → Option NumaShare
  | .setMonitorization ht => some { s with numa := s.numa.setMonitorization ht s.vmsThread }
  | .updateCapacity vthread cpuIds => some (s.updateCapacity vthread cpuIds)
  | .add sr => (s.numa.makeTopology fit sr true).map fun r => { s with numa := r.2.2 }
  | .del sr => some { s with numa := s.numa.del sr }
  | .reload => (s.numa.reload s.vmsThread).map fun numa => { s with numa := numa }

end NumaShare
