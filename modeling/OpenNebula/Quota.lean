/-
# Quotas (`src/um/Quota.cc`, `src/um/Quotas.cc` and the quota types)

A quota is a list of entries: an identifier, a limit and the usage of each metric.  A check compares a
request with the limits and adds it to the usage; `del` subtracts it and removes an entry that is no
longer needed; `set` changes the limits.  The four quotas of a user or a group (datastores, networks,
images and virtual machines) are one object, and a request charges some of them.

Conventions of the embedding:

* Limits and usage are rational numbers: the rounding of `float` and of `float_to_str` is left out.
  They are kept apart, so a metric has another name than the usage of a metric.
* A template is given by what the quotas read in it: an attribute that is missing or that is not a
  number is `none`.
* `attributes` is a `multimap` in which all the entries have one name, so it is the list of the entries
  in the order of insertion.
* What the pools answer (the clusters, the virtual machines of a cluster) is a parameter of `set`.
-/
import OpenNebula.KeyedList
import OpenNebula.TextList

open TextNumber

/-! ## Entries -/

/-- The name of a metric. -/
abbrev Metric := Text

/-- A usage request: the amounts of some metrics. -/
abbrev Usage := Metric → Option ℚ

/-- The amount of a metric; a metric that is not requested has none. -/
def Usage.amount (req : Usage) (m : Metric) : ℚ := (req m).getD 0

/-- `Quota::DEFAULT`. -/
def limitDefault : ℚ := -1

/-- `Quota::UNLIMITED`. -/
def limitUnlimited : ℚ := -2

/-- An entry of a quota. -/
structure QuotaEntry where
  id : Text
  clusterIds : Text
  limit : Metric → ℚ
  used : Metric → ℚ

/-- Why a check or a change of the limits fails. -/
inductive QuotaError where
  | wrongId (qid : Text)
  | limitReached (limit : ℚ) (metric name qid : Text)
  | noDatastore
  | wrongSize
  | wrongLimits (name : Text)
  | noCluster (cluster : ℤ)
  | clusterTaken (cluster : ℤ)
  deriving DecidableEq

/-- What the quota types fix for the operations of `Quota`: the name and the metrics, whether
`get_quota` finds an entry by its clusters or by its identifier, and the identifiers it accepts. -/
structure QuotaKind where
  name : Text
  metrics : List Metric
  nodup : metrics.Nodup
  isDefault : Bool
  byCluster : Bool
  isValid : Text → Bool

namespace QuotaEntry

/-- `Quota::add_to_quota`. -/
def addToQuota (e : QuotaEntry) (m : Metric) (num : ℚ) : QuotaEntry :=
  { e with used := Function.update e.used m (e.used m + num) }

/-- The loop that adds a request to the usage. -/
def charge (metrics : List Metric) (req : Usage) (e : QuotaEntry) : QuotaEntry :=
  metrics.foldl (fun e m => match req m with
    | none => e
    | some num => e.addToQuota m num) e

/-- The entry that `check_quota` makes for an identifier without one. -/
def fresh (qid : Text) : QuotaEntry where
  id := qid
  clusterIds := []
  limit := fun _ => limitDefault
  used := fun _ => 0

/-- The limit that counts: the one of the default quota where the entry has the default. -/
def effectiveLimit (e : QuotaEntry) (default : Option QuotaEntry) (m : Metric) : ℚ :=
  if e.limit m = limitDefault then
    match default with
    | some d => d.limit m
    | none => limitUnlimited
  else e.limit m

end QuotaEntry

/-- The request with the opposite amounts. -/
def Usage.opposite (req : Usage) : Usage := fun m => (req m).map fun num => -num

/-- The limits of one attribute of a new quota. -/
structure QuotaLimits where
  id : Text
  clusterIds : Text
  limit : Metric → Option ℚ
  uid : ℤ
  gid : ℤ

/-! ## The base class -/

namespace QuotaKind

variable (K : QuotaKind)

/-- The attribute by which an entry is found. -/
def keyOf (e : QuotaEntry) : Text := if K.byCluster then e.clusterIds else e.id

/-- `Quota::get_quota`: `none` for a wrong identifier. -/
def getQuota (q : List QuotaEntry) (id : Text) : Option (Option QuotaEntry) :=
  if K.isValid id then some (KeyedList.find K.keyOf q id) else none

/-- The first metric of the request that goes over its limit. -/
def exceeded (qid : Text) (e : QuotaEntry) (default : Option QuotaEntry) (req : Usage) :
    Option QuotaError :=
  K.metrics.findSome? fun m => match req m with
    | none => none
    | some num =>
      let limit := e.effectiveLimit default m
      if limit = limitUnlimited ∨ e.used m + num ≤ limit then none
      else some (.limitReached limit m K.name qid)

/-- `Quota::check_quota`: the error, and the entries afterwards.  An entry that it makes stays when the
request is rejected. -/
def checkQuota (qid : Text) (req : Usage) (defaults q : List QuotaEntry) :
    Option QuotaError × List QuotaEntry :=
  match K.getQuota q qid with
  | none => (some (.wrongId qid), q)
  | some found =>
    let default := (K.getQuota defaults qid).join
    match found with
    | some e =>
      match K.exceeded qid e default req with
      | some error => (some error, q)
      | none => (none, KeyedList.modify K.keyOf (QuotaEntry.charge K.metrics req) qid q)
    | none =>
      let e := QuotaEntry.fresh qid
      match K.exceeded qid e default req with
      | some error => (some error, q ++ [e])
      | none => (none, q ++ [e.charge K.metrics req])

/-- `Quota::add_quota`. -/
def addQuota (qid : Text) (req : Usage) (q : List QuotaEntry) : List QuotaEntry :=
  if K.isValid qid then KeyedList.modify K.keyOf (QuotaEntry.charge K.metrics req) qid q else q

/-- For cluster quotas the default limit is replaced by no limit. -/
def openLimits (e : QuotaEntry) : QuotaEntry :=
  { e with limit := fun m => if m ∈ K.metrics ∧ e.limit m = limitDefault then limitUnlimited
      else e.limit m }

/-- The limit of an entry without a limit. -/
def implicitLimit (e : QuotaEntry) : ℚ :=
  if K.isDefault || e.clusterIds ≠ [] then limitUnlimited else limitDefault

/-- `Quota::cleanup_quota`.  The usage of a cluster quota does not count. -/
def cleanupQuota (qid : Text) (q : List QuotaEntry) : List QuotaEntry :=
  match K.getQuota q qid with
  | some (some e) =>
    let opened := if e.clusterIds ≠ [] then K.openLimits else id
    if K.metrics.any fun m => (e.clusterIds = [] && (e.used m ≠ 0 : Bool)) ||
        (opened e).limit m ≠ K.implicitLimit e then
      KeyedList.modify K.keyOf opened qid q
    else KeyedList.erase K.keyOf qid q
  | _ => q

/-- `Quota::del_quota`. -/
def delQuota (qid : Text) (req : Usage) (q : List QuotaEntry) : List QuotaEntry :=
  match K.getQuota q qid with
  | some (some _) =>
    K.cleanupQuota qid
      (KeyedList.modify K.keyOf (QuotaEntry.charge K.metrics req.opposite) qid q)
  | _ => q

/-- The new limit of a metric; `none` for a negative one. -/
def newLimit (va : QuotaLimits) (m : Metric) : Option ℚ :=
  let limit := (va.limit m).getD (if K.isDefault then limitUnlimited else limitDefault)
  if limit < 0 ∧ limit ≠ limitUnlimited ∧ (K.isDefault = true ∨ limit ≠ limitDefault) then none
  else some limit

/-- `Quota::update_limits`: whether it succeeds, and the entry.  The limits before a wrong one stay. -/
def updateLimits (va : QuotaLimits) : List Metric → QuotaEntry → Bool × QuotaEntry
  | [], e => (true, e)
  | m :: ms, e =>
    match K.newLimit va m with
    | none => (false, e)
    | some limit => updateLimits va ms { e with limit := Function.update e.limit m limit }

/-- `Quota::new_quota`. -/
def newQuota (va : QuotaLimits) : Option QuotaEntry :=
  if K.metrics.all fun m => (K.newLimit va m).isSome then
    some ⟨va.id, va.clusterIds, fun m => (K.newLimit va m).getD 0, fun _ => 0⟩
  else none

/-- `Quota::set`. -/
def set : List QuotaLimits → List QuotaEntry → Option QuotaError × List QuotaEntry
  | [], q => (none, q)
  | va :: vas, q =>
    match K.getQuota q va.id with
    | none => (some (.wrongLimits K.name), q)
    | some none =>
      match K.newQuota va with
      | none => (some (.wrongLimits K.name), q)
      | some nq => set vas (K.cleanupQuota va.id (q ++ [nq]))
    | some (some e) =>
      let q' := KeyedList.modify K.keyOf (fun e => (K.updateLimits va K.metrics e).2) va.id q
      if (K.updateLimits va K.metrics e).1 then set vas (K.cleanupQuota va.id q')
      else (some (.wrongLimits K.name), q')

/-- The loop of a check over the entries it charges. -/
def checkList (defaults : List QuotaEntry) :
    List (Text × Usage) → List QuotaEntry → Option QuotaError × List QuotaEntry
  | [], q => (none, q)
  | (qid, req) :: l, q =>
    match K.checkQuota qid req defaults q with
    | (some error, q') => (some error, q')
    | (none, q') => checkList defaults l q'

/-- The loop of `del` over the entries. -/
def delList : List (Text × Usage) → List QuotaEntry → List QuotaEntry
  | [], q => q
  | (qid, req) :: l, q => delList l (K.delQuota qid req q)

end QuotaKind

/-! ## Templates -/

/-- A network interface of a template. -/
structure QuotaNic where
  networkId : Text
  isAuto : Bool
  floatingIp : Bool

/-- A disk of a template. -/
structure QuotaDisk where
  imageId : Text
  size : Option ℤ
  diskSnapshotTotalSize : Option ℤ
  type : Text
  clone : Option Bool
  cloneTarget : Text
  lnTarget : Text

/-- A template, as the quotas read it: the interfaces are those of `NIC`, `PCI` and `NIC_ALIAS`, and of
a snapshot only the size counts. -/
structure QuotaTemplate where
  datastore : Text
  images : Option ℤ
  clusterId : Option ℤ
  skipGlobalQuota : Bool
  value : Metric → Option ℚ
  nics : List QuotaNic
  disks : List QuotaDisk
  snapshots : List (Option ℤ)

namespace QuotaDisk

/-- `one_util::toupper`. -/
def toUpper (t : Text) : Text := t.map Char.toUpper

/-- `VirtualMachineDisk::is_volatile`. -/
def isVolatile (d : QuotaDisk) : Bool :=
  toUpper d.type = "SWAP".toList || toUpper d.type = "FS".toList

/-- `VirtualMachineDisk::get_tm_target`. -/
def getTmTarget (d : QuotaDisk) : Text :=
  match d.clone with
  | none => []
  | some true => toUpper d.cloneTarget
  | some false => toUpper d.lnTarget

/-- `VirtualMachineDisk::system_ds_size`, with the snapshots. -/
def systemDsSize (d : QuotaDisk) : ℤ :=
  match d.size with
  | none => 0
  | some size =>
    if d.isVolatile || d.getTmTarget = "SYSTEM".toList then size + d.diskSnapshotTotalSize.getD 0
    else 0

/-- `VirtualMachineDisk::image_ds_size`. -/
def imageDsSize (d : QuotaDisk) : ℤ :=
  if d.getTmTarget ≠ "SELF".toList then 0
  else
    match d.size with
    | none => 0
    | some size => size + d.diskSnapshotTotalSize.getD 0

end QuotaDisk

namespace QuotaTemplate

/-- `VirtualMachineDisks::system_ds_size`. -/
def systemDsSize (t : QuotaTemplate) : ℤ := (t.disks.map QuotaDisk.systemDsSize).sum

/-- `VirtualMachine::get_snapshots_system_size`. -/
def getSnapshotsSystemSize (t : QuotaTemplate) : ℤ := (t.snapshots.map fun s => s.getD 0).sum

end QuotaTemplate

/-! ## The quota types -/

/-- `QuotaVirtualMachine::VM_METRICS`. -/
def vmMetrics (generic : List Metric) : List Metric :=
  ["VMS", "RUNNING_VMS", "CPU", "RUNNING_CPU", "MEMORY", "RUNNING_MEMORY", "PCI_DEV",
    "RUNNING_PCI_DEV", "PCI_NIC", "RUNNING_PCI_NIC", "SYSTEM_DISK_SIZE"].map String.toList ++
    generic.flatMap fun m => [m, "RUNNING_".toList ++ m]

/-- The configuration: whether these are default quotas, and the generic metrics of `VM_GENERIC`. -/
structure QuotasConf where
  isDefault : Bool
  generic : List Metric
  nodup : (vmMetrics generic).Nodup

/-- The four quotas. -/
inductive QuotaName where
  | datastore | network | image | vm
  deriving DecidableEq, Repr

/-- The quotas of a user or of a group. -/
abbrev Quotas := QuotaName → List QuotaEntry

/-- `QuotaType`. -/
inductive QuotaType where
  | datastore | vm | network | image | virtualMachine | virtualRouter
  deriving DecidableEq, Repr

/-- The identifiers of the base class: whole numbers. -/
def isNumber (id : Text) : Bool :=
  let e := getSigned 10 32 id
  id ≠ [] && e.ok && e.rest.isEmpty

/-- The four kinds of quotas. -/
def QuotasConf.kind (C : QuotasConf) : QuotaName → QuotaKind
  | .datastore => ⟨"DATASTORE".toList, ["SIZE".toList, "IMAGES".toList], by decide, C.isDefault,
      false, isNumber⟩
  | .network => ⟨"NETWORK".toList, ["LEASES".toList], by decide, C.isDefault, false, isNumber⟩
  | .image => ⟨"IMAGE".toList, ["RVMS".toList], by decide, C.isDefault, false, isNumber⟩
  | .vm => ⟨"VM".toList, vmMetrics C.generic, C.nodup, C.isDefault, true, fun _ => true⟩

/-- A request for one unit of a metric. -/
def oneUnit (m : Metric) : Usage := fun m' => if m' = m then some 1 else none

/-- The request of `QuotaDatastore`. -/
def datastoreRequest (t : QuotaTemplate) (size : ℚ) : Usage := fun m =>
  if m = "IMAGES".toList then
    some (match t.images with
      | some n => if 0 ≤ n then n else 1
      | none => 1)
  else if m = "SIZE".toList then some size
  else none

/-- The interface takes a lease: on a virtual router only a floating address does. -/
def QuotaNic.usesLease (isVRouter : Bool) (nic : QuotaNic) : Bool := !isVRouter || nic.floatingIp

/-- The networks that `QuotaNetwork::check` charges. -/
def networkCharges (isVRouter : Bool) (t : QuotaTemplate) : List (Text × Usage) :=
  (t.nics.filter fun nic => !(nic.isAuto && nic.networkId.isEmpty) && !nic.networkId.isEmpty &&
    nic.usesLease isVRouter).map fun nic => (nic.networkId, oneUnit "LEASES".toList)

/-- The networks that `QuotaNetwork::del` goes through. -/
def networkDels (isVRouter : Bool) (t : QuotaTemplate) : List (Text × Usage) :=
  (t.nics.filter fun nic => nic.usesLease isVRouter).map fun nic =>
    (nic.networkId, oneUnit "LEASES".toList)

/-- The images that `QuotaImage::check` charges. -/
def imageCharges (t : QuotaTemplate) : List (Text × Usage) :=
  (t.disks.filter fun d => !d.imageId.isEmpty).map fun d => (d.imageId, oneUnit "RVMS".toList)

/-- The images that `QuotaImage::del` goes through. -/
def imageDels (t : QuotaTemplate) : List (Text × Usage) :=
  t.disks.map fun d => (d.imageId, oneUnit "RVMS".toList)

/-- The request of `QuotaVirtualMachine`. -/
def vmRequest (C : QuotasConf) (t : QuotaTemplate) : Usage := fun m =>
  if m = "SYSTEM_DISK_SIZE".toList then some (t.systemDsSize + t.getSnapshotsSystemSize : ℤ)
  else if m ∈ vmMetrics C.generic then t.value m
  else none

/-- `QuotaVirtualMachine::get_quota` for a cluster: the first entry with the cluster. -/
def clusterQuota (q : List QuotaEntry) (cluster : ℤ) : Option QuotaEntry :=
  q.find? fun e => cluster ∈ splitUnique e.clusterIds

/-- `QuotaVirtualMachine::get_quota_id`. -/
def getQuotaId (t : QuotaTemplate) (q : List QuotaEntry) : Option Text :=
  match t.clusterId with
  | none => none
  | some cluster => (clusterQuota q cluster).map QuotaEntry.clusterIds

/-- The entries that `QuotaVirtualMachine::check`, `add` and `del` work on: the one of the cluster and
the global one. -/
def vmCharges (C : QuotasConf) (q : List QuotaEntry) (t : QuotaTemplate) : List (Text × Usage) :=
  (match getQuotaId t q with
    | some ids => [(ids, vmRequest C t)]
    | none => []) ++
  if t.skipGlobalQuota then [] else [([], vmRequest C t)]

/-- `QuotaVirtualMachine::add`. -/
def vmAdd (C : QuotasConf) (t : QuotaTemplate) (q : List QuotaEntry) : List QuotaEntry :=
  (vmCharges C q t).foldl (fun q c => (C.kind .vm).addQuota c.1 c.2 q) q

/-! ## Limits of virtual machines -/

/-- What the pools answer: the clusters, and the quota templates of the virtual machines of a user, a
group and a cluster. -/
structure QuotaPools where
  clusters : List ℕ
  vms : ℤ → ℤ → ℤ → List QuotaTemplate

/-- `QuotaVirtualMachine::recompute_clusters`. -/
def recomputeClusters (C : QuotasConf) (pools : QuotaPools) (va : QuotaLimits) (ids : Text)
    (q : List QuotaEntry) : List QuotaEntry :=
  ((splitUnique ids).flatMap fun cluster => pools.vms va.uid va.gid cluster).foldl
    (fun q t => vmAdd C { t with skipGlobalQuota := true } q) q

/-- The check of the clusters of a new quota. -/
def wrongCluster (pools : QuotaPools) (q : List QuotaEntry) (ids : List ℤ) : Option QuotaError :=
  ids.findSome? fun cluster =>
    if cluster ∉ pools.clusters.map Int.ofNat then some (.noCluster cluster)
    else if (clusterQuota q cluster).isSome then some (.clusterTaken cluster)
    else none

/-- `QuotaVirtualMachine::set`. -/
def vmSet (C : QuotasConf) (pools : QuotaPools) :
    List QuotaLimits → List QuotaEntry → Option QuotaError × List QuotaEntry
  | [], q => (none, q)
  | va :: vas, q =>
    let K := C.kind .vm
    let ids := splitUnique va.clusterIds
    let va := { va with clusterIds := joinIds ids }
    match KeyedList.find K.keyOf q va.clusterIds with
    | none =>
      match wrongCluster pools q ids with
      | some error => (some error, q)
      | none =>
        match K.newQuota va with
        | none => (some (.wrongLimits K.name), q)
        | some nq =>
          let q' := q ++ [nq]
          let q' := if nq.clusterIds ≠ [] then recomputeClusters C pools va nq.clusterIds q' else q'
          vmSet C pools vas (K.cleanupQuota va.clusterIds q')
    | some e =>
      let q' := KeyedList.modify K.keyOf (fun e => (K.updateLimits va K.metrics e).2) va.clusterIds q
      if (K.updateLimits va K.metrics e).1 then vmSet C pools vas (K.cleanupQuota va.clusterIds q')
      else (some (.wrongLimits K.name), q')

/-! ## All the quotas -/

namespace Quotas

variable (C : QuotasConf)

/-- The check of one of the four quotas, over the entries it charges. -/
def checkOf (n : QuotaName) (charges : List (Text × Usage)) (defaults q : Quotas) :
    Option QuotaError × Quotas :=
  let r := (C.kind n).checkList (defaults n) charges (q n)
  (r.1, Function.update q n r.2)

/-- The deletion of one of the four quotas. -/
def delOf (n : QuotaName) (charges : List (Text × Usage)) (q : Quotas) : Quotas :=
  Function.update q n ((C.kind n).delList charges (q n))

/-- `QuotaDatastore::check`. -/
def datastoreCheck (t : QuotaTemplate) (defaults q : Quotas) : Option QuotaError × Quotas :=
  if t.datastore = [] then (some .noDatastore, q)
  else
    match t.value "SIZE".toList with
    | none => (some .wrongSize, q)
    | some size =>
      if size < 0 then (some .wrongSize, q)
      else checkOf C .datastore [(t.datastore, datastoreRequest t size)] defaults q

/-- `QuotaDatastore::del`. -/
def datastoreDel (t : QuotaTemplate) (q : Quotas) : Quotas :=
  if t.datastore = [] then q
  else
    match t.value "SIZE".toList with
    | none => q
    | some size => delOf C .datastore [(t.datastore, datastoreRequest t size)] q

/-- `QuotaVirtualMachine::check`. -/
def vmCheck (t : QuotaTemplate) (defaults q : Quotas) : Option QuotaError × Quotas :=
  checkOf C .vm (vmCharges C (q .vm) t) defaults q

/-- `QuotaVirtualMachine::del`. -/
def vmDel (t : QuotaTemplate) (q : Quotas) : Quotas := delOf C .vm (vmCharges C (q .vm) t) q

/-- `Quotas::quota_check`: the error, and the quotas afterwards. -/
def quotaCheck (type : QuotaType) (t : QuotaTemplate) (defaults q : Quotas) :
    Option QuotaError × Quotas :=
  match type with
  | .datastore => datastoreCheck C t defaults q
  | .network => checkOf C .network (networkCharges false t) defaults q
  | .image => checkOf C .image (imageCharges t) defaults q
  | .vm => vmCheck C t defaults q
  | .virtualRouter => checkOf C .network (networkCharges true t) defaults q
  | .virtualMachine =>
    match checkOf C .network (networkCharges false t) defaults q with
    | (some error, q₁) => (some error, q₁)
    | (none, q₁) =>
      match vmCheck C t defaults q₁ with
      | (some error, q₂) => (some error, delOf C .network (networkDels false t) q₂)
      | (none, q₂) =>
        match checkOf C .image (imageCharges t) defaults q₂ with
        | (some error, q₃) => (some error, vmDel C t (delOf C .network (networkDels false t) q₃))
        | (none, q₃) => (none, q₃)

/-- `Quotas::quota_del`. -/
def quotaDel (type : QuotaType) (t : QuotaTemplate) (q : Quotas) : Quotas :=
  match type with
  | .datastore => datastoreDel C t q
  | .network => delOf C .network (networkDels false t) q
  | .image => delOf C .image (imageDels t) q
  | .vm => vmDel C t q
  | .virtualRouter => delOf C .network (networkDels true t) q
  | .virtualMachine =>
    delOf C .image (imageDels t) (vmDel C t (delOf C .network (networkDels false t) q))

/-- One of the quotas is set, unless there was an error before. -/
def setOf (limits : QuotaName → List QuotaLimits) (n : QuotaName) (r : Option QuotaError × Quotas) :
    Option QuotaError × Quotas :=
  match r with
  | (some error, q) => (some error, q)
  | (none, q) =>
    let r := (C.kind n).set (limits n) (q n)
    (r.1, Function.update q n r.2)

/-- `Quotas::set`: the quotas are set in turn, up to the first error. -/
def set (pools : QuotaPools) (limits : QuotaName → List QuotaLimits) (q : Quotas) :
    Option QuotaError × Quotas :=
  match setOf C limits .image (setOf C limits .network (setOf C limits .datastore (none, q))) with
  | (some error, q) => (some error, q)
  | (none, q) =>
    let r := vmSet C pools (limits .vm) (q .vm)
    (r.1, Function.update q .vm r.2)

end Quotas

/-! ## Users and groups -/

/-- The quotas of the users and of the groups, as they are in the database. -/
structure QuotaStore where
  users : ℤ → Option Quotas
  groups : ℤ → Option Quotas

/-- Who rejects a request, and why. -/
inductive QuotaReject where
  | user (uid : ℤ) (error : QuotaError)
  | group (gid : ℤ) (error : QuotaError)

namespace QuotaStore

/-- `UserPool::ONEADMIN_ID` and `GroupPool::ONEADMIN_ID`. -/
def oneadminId : ℤ := 0

/-- The quotas of an identifier that is not the administrator's. -/
def limited (pool : ℤ → Option Quotas) (id : ℤ) : Option Quotas :=
  if id ≠ oneadminId then pool id else none

/-- The static `Quotas::quota_check`: the quotas of the user are checked and written, then the ones of
the group. -/
def quotaCheck (C : QuotasConf) (userDefaults groupDefaults : Quotas) (type : QuotaType) (uid gid : ℤ)
    (t : QuotaTemplate) (s : QuotaStore) : Option QuotaReject × QuotaStore :=
  let checkUser : Option QuotaReject × QuotaStore :=
    match limited s.users uid with
    | none => (none, s)
    | some user =>
      match Quotas.quotaCheck C type t userDefaults user with
      | (none, user') => (none, { s with users := Function.update s.users uid (some user') })
      | (some error, _) => (some (.user uid error), s)
  match checkUser with
  | (some reject, s) => (some reject, s)
  | (none, s) =>
    match limited s.groups gid with
    | none => (none, s)
    | some group =>
      match Quotas.quotaCheck C type t groupDefaults group with
      | (none, group') => (none, { s with groups := Function.update s.groups gid (some group') })
      | (some error, _) => (some (.group gid error), s)

end QuotaStore
