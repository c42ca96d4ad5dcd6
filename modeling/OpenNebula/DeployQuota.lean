/-
# The quotas of a deploy and of a migration (`src/rm/api/VirtualMachineAPI.cc`)

A deploy makes up to four charges: the leases of the interfaces that the scheduler places, the running part
of a virtual machine that was stopped, and the part of the cluster of the host, which is taken from the
cluster before if there was one.  They share the template `quota_tmpl`, whose `CLUSTER_ID` is switched, and an
error after the first charge undoes the charges that were made (`DeployGuard`).  A migration charges the
new cluster and releases the old one.

Conventions of the embedding:

* A template is given by what the quotas read in it, as in `Quota.lean`.
* The tests of a request that do not read the quotas are a parameter, and a test that fails ends the
  request at its place.
* The network that `get_nic_by_name` finds for an interface is a parameter.
* Leases, ports and the records of the history are left out: they have no quotas.
-/
import OpenNebula.SoundQuotas
import OpenNebula.OwnerLedger
import OpenNebula.LifeCycle

open KeyedList ClusterQuota

namespace DeployQuota

open OwnerChange (Account Request emptyTemplate)
open QuotaStore (SameUsage)

/-! ## Charges and releases of an owner and a group -/

/-- The quotas of the users and groups. -/
abbrev Store := Account → Option Quotas

/-- The owner and the group of a virtual machine. -/
structure Holder where
  uid : ℕ
  gid : ℕ

/-- The quotas of the account are used. -/
def Holder.Uses (o : Holder) (a : Account) : Prop :=
  (a = .user o.uid ∨ a = .group o.gid) ∧ a.id ≠ QuotaStore.oneadminId

instance (o : Holder) (a : Account) : Decidable (o.Uses a) := inferInstanceAs (Decidable (_ ∧ _))

section Shared

variable (C : QuotasConf) (defaults : Account → Quotas)

/-- `SharedAPI::quota_authorization`: whether the request is accepted, and the quotas.  The user is
released when the group rejects it. -/
def quotaAuthorization (o : Holder) (r : Request) (s : Store) : Bool × Store :=
  match OwnerChange.quotaAuthorization C defaults (.user o.uid) r s with
  | none => (false, s)
  | some s₁ =>
    match OwnerChange.quotaAuthorization C defaults (.group o.gid) r s₁ with
    | none => (false, OwnerChange.quotaRollback C (.user o.uid) r s₁)
    | some s₂ => (true, s₂)

/-- `SharedAPI::quota_rollback`. -/
def quotaRollback (o : Holder) (r : Request) (s : Store) : Store :=
  OwnerChange.quotaRollback C (.group o.gid) r (OwnerChange.quotaRollback C (.user o.uid) r s)

/-- The quotas of an account are read, changed and written. -/
def onQuotas (f : Quotas → Quotas) (a : Account) (s : Store) : Store :=
  if a.id ≠ QuotaStore.oneadminId then Function.update s a ((s a).map f) else s

/-- The static `Quotas::vm_add`. -/
def staticVmAdd (o : Holder) (t : QuotaTemplate) (s : Store) : Store :=
  let add (q : Quotas) : Quotas := Function.update q .vm (vmAdd C t (q .vm))
  onQuotas add (.group o.gid) (onQuotas add (.user o.uid) s)

/-- The static `Quotas::vm_del`: it is `quota_del` for `VIRTUALMACHINE`. -/
def staticVmDel (o : Holder) (t : QuotaTemplate) (s : Store) : Store :=
  let del := Quotas.quotaDel C .virtualMachine t
  onQuotas del (.group o.gid) (onQuotas del (.user o.uid) s)

end Shared

/-! ## The deploy -/

/-- An interface of the template of the request. -/
structure DeployNic where
  networkId : Text
  network : Text
  isAuto : Bool

/-- `VirtualMachineNic::authorize`: the network with the name is written in `NETWORK_ID`. -/
def DeployNic.authorize (byName : DeployNic → Option ℕ) (nic : DeployNic) : DeployNic :=
  if nic.isAuto || !nic.networkId.isEmpty || nic.network.isEmpty then nic
  else
    match byName nic with
    | none => nic
    | some oid => { nic with networkId := intText oid }

/-- A template with some interfaces, as the quotas read it. -/
def nicTemplate (nics : List DeployNic) : QuotaTemplate :=
  { emptyTemplate with nics := nics.map fun nic => ⟨nic.networkId, nic.isAuto, false⟩ }

/-- The tests of a deploy that do not read the quotas. -/
inductive Check where
  | authorization | exists | state | host | autoLeases | tmMad | shareable | validate | vncPort
  | history
  deriving DecidableEq

/-- What a deploy reads: of the virtual machine its owner, its state, the cluster of its history,
whether the last action was a stop or an undeploy, its quota template and the attributes of the running
part; and the cluster of the host, the template of the request if it is not empty, the networks with a
name, and the tests. -/
structure Deploy where
  owner : Holder
  state : LifeCycle.VmState
  cid : Option ℤ
  stopped : Bool
  basic : QuotaTemplate
  running : Metric → Option (Option ℚ)
  clusterId : ℤ
  template : Option (List DeployNic)
  byName : DeployNic → Option ℕ
  passes : Check → Bool

/-- Why a deploy fails. -/
inductive DeployError where
  | networkQuota
  | failed (c : Check)
  | runningQuota
  | clusterQuota
  deriving DecidableEq

/-- `VirtualMachineAPI::DeployGuard`. -/
structure DeployGuard where
  revertNetworkQuota : Bool
  revertRunningQuota : Bool
  revertClusterQuota : Bool
  revertClusterTransfer : Bool

namespace Deploy

variable (d : Deploy)

/-- `check_nic_auto`. -/
def checkNicAuto : Bool := d.template.isSome && !d.stopped

/-- `old_cid`. -/
def oldCid : ℤ := d.cid.getD (-1)

/-- `do_running_quota`. -/
def doRunningQuota : Bool := d.state = .stopped || d.state = .undeployed

/-- `tmpl`, before the authorization and after it. -/
def tmpl : QuotaTemplate := nicTemplate (d.template.getD [])

def authorizedTmpl : QuotaTemplate :=
  nicTemplate ((d.template.getD []).map (DeployNic.authorize d.byName))

/-- `quota_tmpl_running`. -/
def quotaTmplRunning : QuotaTemplate :=
  { emptyTemplate with
    clusterId := if d.doRunningQuota then some d.clusterId else d.cid
    value := fun m => (d.running m).join }

/-- `quota_tmpl`, for a cluster.  It is filled for a first deploy and when the cluster changes. -/
def quotaTmpl (cluster : ℤ) : QuotaTemplate :=
  { (if d.cid = none ∨ d.oldCid ≠ -1 ∧ d.oldCid ≠ d.clusterId then d.basic else emptyTemplate) with
    clusterId := some cluster
    skipGlobalQuota := true }

/-- `quota_tmpl` on a first deploy: it is merged with the running part, whose attributes replace its
own. -/
def merged : QuotaTemplate :=
  { d.quotaTmpl d.clusterId with
    clusterId := d.quotaTmplRunning.clusterId.or (some d.clusterId)
    value := fun m => (d.running m).getD ((d.quotaTmpl d.clusterId).value m) }

/-- The tests before the charges of the running part and of the cluster. -/
def checks : List Check :=
  [.authorization, .exists, .state, .host] ++ (if d.checkNicAuto then [.autoLeases] else []) ++
    [.tmMad, .shareable, .validate]

/-- A virtual machine can be deployed in some states only. -/
def passesCheck : Check → Bool
  | .state => d.state = .pending || d.state = .hold || d.state = .stopped || d.state = .undeployed
  | c => d.passes c

section Run

variable (C : QuotasConf) (defaults : Account → Quotas)

/-- `DeployGuard::operator()`. -/
def rollback (g : DeployGuard) (s : Store) : Store :=
  let s := if g.revertNetworkQuota then quotaRollback C d.owner (.network, d.authorizedTmpl) s else s
  let s := if g.revertRunningQuota then quotaRollback C d.owner (.vm, d.quotaTmplRunning) s else s
  if g.revertClusterQuota then quotaRollback C d.owner (.vm, d.merged) s
  else if g.revertClusterTransfer then
    quotaRollback C d.owner (.vm, d.quotaTmpl d.clusterId)
      (staticVmAdd C d.owner (d.quotaTmpl d.oldCid) s)
  else s

/-- The end of a deploy: the port and the record of the history. -/
def finish (g : DeployGuard) (s : Store) : Except (DeployError × Store) Store :=
  match [Check.vncPort, .history].find? fun c => !d.passesCheck c with
  | some c => .error (.failed c, d.rollback C g s)
  | none => .ok s

/-- The quotas of the cluster: those of a first deploy, or the transfer from another cluster. -/
def clusterQuotas (g : DeployGuard) (s : Store) : Except (DeployError × Store) Store :=
  if d.oldCid = -1 then
    match quotaAuthorization C defaults d.owner (.vm, d.merged) s with
    | (false, s₁) => .error (.clusterQuota, d.rollback C g s₁)
    | (true, s₁) => d.finish C { g with revertClusterQuota := true } s₁
  else if d.oldCid ≠ d.clusterId then
    match quotaAuthorization C defaults d.owner (.vm, d.quotaTmpl d.clusterId) s with
    | (false, s₁) => .error (.clusterQuota, d.rollback C g s₁)
    | (true, s₁) =>
      d.finish C { g with revertClusterTransfer := true }
        (staticVmDel C d.owner (d.quotaTmpl d.oldCid) s₁)
  else d.finish C g s

/-- A deploy from its authorization on; the guard is made with it. -/
def guarded (s : Store) : Except (DeployError × Store) Store :=
  let g : DeployGuard := ⟨d.checkNicAuto, false, false, false⟩
  match d.checks.find? fun c => !d.passesCheck c with
  | some c => .error (.failed c, d.rollback C g s)
  | none =>
    if d.doRunningQuota then
      match quotaAuthorization C defaults d.owner (.vm, d.quotaTmplRunning) s with
      | (false, s₁) => .error (.runningQuota, d.rollback C g s₁)
      | (true, s₁) => d.clusterQuotas C defaults { g with revertRunningQuota := true } s₁
    else d.clusterQuotas C defaults g s

/-- `VirtualMachineAPI::deploy`, from its first charge on. -/
def deploy (s : Store) : Except (DeployError × Store) Store :=
  if d.checkNicAuto then
    match quotaAuthorization C defaults d.owner (.network, d.tmpl) s with
    | (false, s₁) => .error (.networkQuota, s₁)
    | (true, s₁) => d.guarded C defaults s₁
  else d.guarded C defaults s

end Run

end Deploy

/-! ## The migration -/

/-- What a migration reads: the owner of the virtual machine, its quota template with the running part if it
counts, its cluster and the one of the host, and whether the record of the history and the dispatch manager
succeed. -/
structure Migrate where
  owner : Holder
  template : QuotaTemplate
  cClusterId : ℤ
  clusterId : ℤ
  addHistory : Bool
  migrates : Bool

namespace Migrate

variable (r : Migrate)

/-- `quota_tmpl`, for a cluster. -/
def quotaTmpl (cluster : ℤ) : QuotaTemplate :=
  { r.template with clusterId := some cluster, skipGlobalQuota := true }

section Run

variable (C : QuotasConf) (defaults : Account → Quotas)

/-- The rollback of the quotas of the cluster.  `CLUSTER_ID` is still the old cluster. -/
def rollback (s : Store) : Store :=
  if r.cClusterId ≠ r.clusterId then
    staticVmDel C r.owner (r.quotaTmpl r.cClusterId)
      (staticVmAdd C r.owner (r.quotaTmpl r.cClusterId) s)
  else s

/-- The record of the history and the migration. -/
def finish (s : Store) : Except (Bool × Store) Store :=
  if r.addHistory && r.migrates then .ok s else .error (true, r.rollback C s)

/-- `VirtualMachineAPI::migrate`, from its first charge on; the error says whether the charge was
accepted. -/
def migrate (s : Store) : Except (Bool × Store) Store :=
  if r.cClusterId ≠ r.clusterId then
    match quotaAuthorization C defaults r.owner (.vm, r.quotaTmpl r.clusterId) s with
    | (false, s₁) => .error (false, s₁)
    | (true, s₁) => r.finish C (quotaRollback C r.owner (.vm, r.quotaTmpl r.cClusterId) s₁)
  else r.finish C s

end Run

end Migrate

/-! ## The usage -/

/-- The networks are charged and released, and the images are released, so that their usage is what
it was. -/
structure Returns (C : QuotasConf) (q : Quotas) (charged networks images : List (Text × Usage)) :
    Prop where
  networks : ∀ id e, (C.kind .network).isValid id = true →
    find (C.kind .network).keyOf (q .network) id = some e →
    (C.kind .network).Restores "LEASES".toList e (QuotaKind.countOf charged id)
      (QuotaKind.countOf networks id)
  images : ∀ id e, (C.kind .image).isValid id = true →
    find (C.kind .image).keyOf (q .image) id = some e →
    (C.kind .image).Restores "RVMS".toList e 0 (QuotaKind.countOf images id)

namespace Deploy

variable (C : QuotasConf) (defaults : Account → Quotas) (d : Deploy)

/-- The usage of the cluster is transferred before the error. -/
def Transfers (e : DeployError) : Prop :=
  d.oldCid ≠ -1 ∧ d.oldCid ≠ d.clusterId ∧ (e = .failed .vncPort ∨ e = .failed .history)

instance (e : DeployError) : Decidable (d.Transfers e) := inferInstanceAs (Decidable (_ ∧ _))

/-- The template of the interfaces is charged to these quotas; the group may reject it after the
user. -/
def Accepts (e : DeployError) (a : Account) (q : Quotas) : Prop :=
  d.checkNicAuto = true ∧
    (e = .networkQuota → a = .user d.owner.uid ∧
      (Quotas.quotaCheck C .network d.tmpl (defaults a) q).1 = none)

instance (e : DeployError) (a : Account) (q : Quotas) : Decidable (d.Accepts C defaults e a q) :=
  inferInstanceAs (Decidable (_ ∧ (_ → _ ∧ _)))

/-- The networks that are charged before an error. -/
def charged (e : DeployError) (a : Account) (q : Quotas) : List (Text × Usage) :=
  if d.Accepts C defaults e a q then networkCharges false d.tmpl else []

/-- The networks that are released: with the transfer, and by the rollback. -/
def networks (e : DeployError) (a : Account) (q : Quotas) : List (Text × Usage) :=
  (if d.Transfers e then networkCharges false (d.quotaTmpl d.oldCid) else []) ++
    if d.Accepts C defaults e a q then
      networkCharges false (if e = .networkQuota then d.tmpl else d.authorizedTmpl)
    else []

/-- The images that are released. -/
def images (e : DeployError) : List (Text × Usage) :=
  if d.Transfers e then imageCharges (d.quotaTmpl d.oldCid) else []

/-- **When a failed deploy restores the quotas**: each network is released as often as it was charged, and
no image is released, unless the owner has no entry for it. -/
def Restorable (e : DeployError) (s : Store) : Prop :=
  ∀ a q, d.owner.Uses a → s a = some q →
    Returns C q (d.charged C defaults e a q) (d.networks C defaults e a q) (d.images e)

end Deploy

/-- **When a failed migration restores the quotas**: the charge was rejected or there was none, or
both clusters have one entry or the template is empty, and no network and no image is released. -/
def Migrate.Restorable (C : QuotasConf) (r : Migrate) (charged : Bool) (s : Store) : Prop :=
  charged = true → r.cClusterId ≠ r.clusterId → ∀ a q, r.owner.Uses a → s a = some q →
    (getQuotaId (r.quotaTmpl r.clusterId) (q .vm) = getQuotaId (r.quotaTmpl r.cClusterId) (q .vm) ∨
      ∀ m ∈ (C.kind .vm).metrics, (vmRequest C r.template).amount m = 0) ∧
    Returns C q [] (networkCharges false r.template) (imageCharges r.template)

/-! ## One account -/

section Account

variable {C : QuotasConf} {defaults q₀ q q' : Quotas} {c d i : List (Text × Usage)}
  {δ : Text → Metric → ℚ} {g : Bool} {t : QuotaTemplate}

/-- What has happened to the quotas of an account: the networks `c` were charged and `d` released, the
images `i` were released, and the usage of the virtual machines has changed by `δ`. -/
structure Track (C : QuotasConf) (q₀ q : Quotas) (c d i : List (Text × Usage))
    (δ : Text → Metric → ℚ) (g : Bool) : Prop where
  datastore : q .datastore = q₀ .datastore
  network : ∃ defaults l, (C.kind .network).checkList defaults c (q₀ .network) = (none, l) ∧
    q .network = (C.kind .network).delList d l
  image : q .image = (C.kind .image).delList i (q₀ .image)
  vm : Moved C (q₀ .vm) (q .vm) δ g

theorem Track.refl (h : Sound C q) : Track C q q [] [] [] (fun _ _ => 0) false :=
  ⟨rfl, ⟨[], q .network, rfl, rfl⟩, rfl, Moved.refl h.clusters h.lasting⟩

theorem Track.congr {δ' : Text → Metric → ℚ} (h : Track C q₀ q c d i δ g)
    (heq : ∀ id m, δ' id m = δ id m) : Track C q₀ q c d i δ' g := by
  rw [show δ' = δ from funext fun id => funext fun m => heq id m]
  exact h

theorem delList_append (K : QuotaKind) (l l' : List (Text × Usage)) (q : List QuotaEntry) :
    K.delList (l ++ l') q = K.delList l' (K.delList l q) := by
  induction l generalizing q with
  | nil => rfl
  | cons x l ih => exact ih _

/-- The deletion of a request that has nothing to do with datastores. -/
theorem quotaDel_eq {type : QuotaType} (htype : type ≠ .datastore) (t : QuotaTemplate) (q : Quotas)
    (n : QuotaName) : Quotas.quotaDel C type t q n =
      (C.kind n).delList (Quotas.chargesOf C q type t n) (q n) := by
  refine Quotas.quotaDel_apply type (fun x hx => ?_) n
  cases type with
  | datastore => exact absurd rfl htype
  | vm | network | image | virtualMachine | virtualRouter => exact absurd hx List.not_mem_nil

/-- The interfaces are charged before anything else. -/
theorem Track.chargeNetwork (h : Sound C q)
    (hcheck : Quotas.quotaCheck C .network t defaults q = (none, q')) :
    Track C q q' (networkCharges false t) [] [] (fun _ _ => 0) false := by
  have happly := Quotas.quotaCheck_apply hcheck
  have hsame : ∀ n, n ≠ .network → q' n = q n := by
    intro n hn
    cases n with
    | network => exact absurd rfl hn
    | datastore | image | vm => exact ((Prod.mk.inj (happly _)).2).symm
  refine ⟨hsame _ (by decide), ⟨_, q' .network, happly .network, rfl⟩, hsame _ (by decide), ?_⟩
  rw [hsame _ (by decide)]
  exact Moved.refl h.clusters h.lasting

theorem Track.chargeVm (h : Track C q₀ q c d i δ g) (hclusters : ClusterTidy C (q₀ .vm))
    (hcheck : Quotas.quotaCheck C .vm t defaults q = (none, q')) :
    Track C q₀ q' c d i (fun id m => δ id m + amountOf (vmCharges C (q₀ .vm) t) id m)
      (g || !t.skipGlobalQuota) := by
  have happly := Quotas.quotaCheck_apply hcheck
  have hsame : ∀ n, n ≠ .vm → q' n = q n := by
    intro n hn
    cases n with
    | vm => exact absurd rfl hn
    | datastore | image | network => exact ((Prod.mk.inj (happly _)).2).symm
  obtain ⟨defaults', l, hcharge, hnetwork⟩ := h.network
  refine ⟨(hsame _ (by decide)).trans h.datastore, ⟨defaults', l, hcharge, ?_⟩,
    (hsame _ (by decide)).trans h.image, h.vm.check hclusters (happly .vm)⟩
  rw [hsame _ (by decide), hnetwork]

theorem Track.releaseNetwork (h : Track C q₀ q c d i δ g) (t : QuotaTemplate) :
    Track C q₀ (Quotas.quotaDel C .network t q) c (d ++ networkCharges false t) i δ g := by
  have hdel : ∀ n, Quotas.quotaDel C .network t q n =
      (C.kind n).delList (Quotas.chargesOf C q .network t n) (q n) := quotaDel_eq (by decide) t q
  obtain ⟨defaults', l, hcharge, hnetwork⟩ := h.network
  refine ⟨(hdel _).trans h.datastore, ⟨defaults', l, hcharge, ?_⟩, (hdel _).trans h.image, ?_⟩
  · rw [hdel, hnetwork, delList_append]
    rfl
  · rw [hdel]
    exact h.vm

theorem Track.releaseVm (h : Track C q₀ q c d i δ g) (hclusters : ClusterTidy C (q₀ .vm))
    (hg : t.skipGlobalQuota = false → g = true) :
    Track C q₀ (Quotas.quotaDel C .vm t q) c d i
      (fun id m => δ id m - amountOf (vmCharges C (q₀ .vm) t) id m) (g && t.skipGlobalQuota) := by
  have hdel : ∀ n, Quotas.quotaDel C .vm t q n =
      (C.kind n).delList (Quotas.chargesOf C q .vm t n) (q n) := quotaDel_eq (by decide) t q
  obtain ⟨defaults', l, hcharge, hnetwork⟩ := h.network
  refine ⟨(hdel _).trans h.datastore, ⟨defaults', l, hcharge, (hdel _).trans hnetwork⟩,
    (hdel _).trans h.image, ?_⟩
  rw [hdel]
  exact h.vm.del hclusters hg

/-- The release of a whole virtual machine has its networks and its images too. -/
theorem Track.releaseAll (h : Track C q₀ q c d [] δ g) (hclusters : ClusterTidy C (q₀ .vm))
    (hg : t.skipGlobalQuota = false → g = true) :
    Track C q₀ (Quotas.quotaDel C .virtualMachine t q) c (d ++ networkCharges false t) (imageCharges t)
      (fun id m => δ id m - amountOf (vmCharges C (q₀ .vm) t) id m) (g && t.skipGlobalQuota) := by
  have hdel : ∀ n, Quotas.quotaDel C .virtualMachine t q n =
      (C.kind n).delList (Quotas.chargesOf C q .virtualMachine t n) (q n) := quotaDel_eq (by decide) t q
  obtain ⟨defaults', l, hcharge, hnetwork⟩ := h.network
  refine ⟨(hdel _).trans h.datastore, ⟨defaults', l, hcharge, ?_⟩, ?_, ?_⟩
  · rw [hdel, hnetwork, delList_append]
    rfl
  · rw [hdel, h.image]
    rfl
  · rw [hdel]
    exact h.vm.del hclusters hg

theorem Track.giveVm (h : Track C q₀ q c d i δ g) (hclusters : ClusterTidy C (q₀ .vm))
    (hskip : t.skipGlobalQuota = true) :
    Track C q₀ (Function.update q .vm (vmAdd C t (q .vm))) c d i
      (fun id m => δ id m + amountOf (vmCharges C (q₀ .vm) t) id m) g := by
  have hsame : ∀ n, n ≠ .vm → Function.update q .vm (vmAdd C t (q .vm)) n = q n := fun n hn =>
    Function.update_of_ne hn _ _
  obtain ⟨defaults', l, hcharge, hnetwork⟩ := h.network
  refine ⟨(hsame _ (by decide)).trans h.datastore,
    ⟨defaults', l, hcharge, (hsame _ (by decide)).trans hnetwork⟩,
    (hsame _ (by decide)).trans h.image, ?_⟩
  rw [Function.update_self]
  exact h.vm.add hclusters hskip

theorem single_network (h : C.isDefault = false) :
    (C.kind .network).Single "LEASES".toList := ⟨rfl, fun _ => rfl, h⟩

theorem single_image (h : C.isDefault = false) :
    (C.kind .image).Single "RVMS".toList := ⟨rfl, fun _ => rfl, h⟩

theorem amount_oneUnit (m : Metric) : (oneUnit m).amount m = 1 := by
  unfold Usage.amount oneUnit
  rw [if_pos rfl]
  rfl

theorem allUnits_networkCharges (t : QuotaTemplate) :
    QuotaKind.AllUnits "LEASES".toList (networkCharges false t) := by
  intro x hx
  obtain ⟨nic, -, rfl⟩ := List.mem_map.mp hx
  exact amount_oneUnit _

theorem allUnits_imageCharges (t : QuotaTemplate) :
    QuotaKind.AllUnits "RVMS".toList (imageCharges t) := by
  intro x hx
  obtain ⟨disk, -, rfl⟩ := List.mem_map.mp hx
  exact amount_oneUnit _

/-- Releases with a wrong identifier do nothing. -/
theorem usage_delList_of_invalid {K : QuotaKind} {l : List QuotaEntry} {id : Text}
    (hu : Unique K.keyOf l) (hinvalid : K.isValid id = false) (r : List (Text × Usage)) (m : Metric) :
    K.usage (K.delList r l) id m = K.usage l id m := by
  induction r generalizing l with
  | nil => rfl
  | cons x r ih =>
    rw [QuotaKind.delList, ih (QuotaKind.unique_delQuota hu x.1 x.2), QuotaKind.usage, QuotaKind.usage]
    by_cases hid : id = x.1
    · rw [QuotaKind.delQuota_of_none fun hvalid => absurd (hvalid.symm.trans (hid ▸ hinvalid)) (by simp)]
    · rw [QuotaKind.find_delQuota_of_ne hu x.2 hid]

/-- **When the usage of an account is restored.** -/
theorem Track.usage_iff (h : Track C q₀ q c d i δ g) (hsound : Sound C q₀)
    (hc : QuotaKind.AllUnits "LEASES".toList c) (hd : QuotaKind.AllUnits "LEASES".toList d)
    (hi : QuotaKind.AllUnits "RVMS".toList i)
    (hle : ∀ id, (C.kind .network).isValid id = true →
      QuotaKind.countOf c id ≤ QuotaKind.countOf d id) :
    (∀ n id m, m ∈ (C.kind n).metrics → Quotas.usage C q n id m = Quotas.usage C q₀ n id m) ↔
      Returns C q₀ c d i ∧ ∀ id, ∀ m ∈ (C.kind .vm).metrics, δ id m = 0 := by
  obtain ⟨defaults', l, hcharge, hnetwork⟩ := h.network
  have htidy := hsound.tidy .network (by decide)
  have himages := hsound.tidy .image (by decide)
  have hnet : ∀ id, (C.kind .network).isValid id = true →
      (Quotas.usage C q .network id "LEASES".toList = Quotas.usage C q₀ .network id "LEASES".toList ↔
        ∀ e, find (C.kind .network).keyOf (q₀ .network) id = some e →
          (C.kind .network).Restores "LEASES".toList e (QuotaKind.countOf c id)
            (QuotaKind.countOf d id)) := by
    intro id hvalid
    rw [Quotas.usage, Quotas.usage, hnetwork]
    exact QuotaKind.usage_iff_restores (single_network hsound.notDefault) hc hd htidy hcharge
      (hle id hvalid) hvalid
  have himg : ∀ id, (C.kind .image).isValid id = true →
      (Quotas.usage C q .image id "RVMS".toList = Quotas.usage C q₀ .image id "RVMS".toList ↔
        ∀ e, find (C.kind .image).keyOf (q₀ .image) id = some e →
          (C.kind .image).Restores "RVMS".toList e 0 (QuotaKind.countOf i id)) := by
    intro id hvalid
    rw [Quotas.usage, Quotas.usage, h.image]
    have hnone : (C.kind .image).checkList [] [] (q₀ .image) = (none, q₀ .image) := rfl
    exact QuotaKind.usage_iff_restores (single_image hsound.notDefault)
      (fun x hx => absurd hx List.not_mem_nil) hi himages hnone (Nat.zero_le _) hvalid
  have hvm : ∀ id, ∀ m ∈ (C.kind .vm).metrics,
      (Quotas.usage C q .vm id m = Quotas.usage C q₀ .vm id m ↔ δ id m = 0) := by
    intro id m hm
    rw [Quotas.usage, Quotas.usage, h.vm.usage id m hm]
    exact add_eq_left
  constructor
  · intro hsame
    refine ⟨⟨fun id e hvalid he => ?_, fun id e hvalid he => ?_⟩, fun id m hm => ?_⟩
    · exact (hnet id hvalid).mp (hsame .network id _ List.mem_cons_self) e he
    · exact (himg id hvalid).mp (hsame .image id _ List.mem_cons_self) e he
    · exact (hvm id m hm).mp (hsame .vm id m hm)
  · rintro ⟨hreturns, hzero⟩ n id m hm
    cases n with
    | datastore => rw [Quotas.usage, Quotas.usage, h.datastore]
    | network =>
      obtain rfl := List.mem_singleton.mp hm
      by_cases hvalid : (C.kind .network).isValid id = true
      · exact (hnet id hvalid).mpr fun e he => hreturns.networks id e hvalid he
      · -- A wrong identifier is neither charged nor released.
        have hinvalid := Bool.eq_false_of_not_eq_true hvalid
        rw [Quotas.usage, Quotas.usage, hnetwork]
        have hu := (htidy.checkList (fun _ => rfl) hcharge).1.unique
        rw [usage_delList_of_invalid hu hinvalid]
        rcases QuotaKind.find_checkUnits (single_network hsound.notDefault) hc hcharge id with
          ⟨-, hfind⟩ | ⟨-, hyes, -⟩
        · rw [QuotaKind.usage, hfind]
          rfl
        · exact absurd hyes hvalid
    | image =>
      obtain rfl := List.mem_singleton.mp hm
      by_cases hvalid : (C.kind .image).isValid id = true
      · exact (himg id hvalid).mpr fun e he => hreturns.images id e hvalid he
      · rw [Quotas.usage, Quotas.usage, h.image]
        exact usage_delList_of_invalid himages.unique (Bool.eq_false_of_not_eq_true hvalid) i _
    | vm => exact (hvm id m hm).mpr (hzero id m hm)

end Account

/-! ## The store -/

section Views

variable {C : QuotasConf} {defaults : Account → Quotas} {o : Holder} {a b : Account} {r : Request}
  {s₀ s s' : Store} {P Q : Quotas → Quotas → Prop} {q : Quotas}

theorem counted_iff (o : Holder) (a : Account) (ha : a = .user o.uid ∨ a = .group o.gid) :
    a.counted = true ↔ o.Uses a := by
  have hid : a.id ≠ -1 := by
    rcases ha with rfl | rfl
    · change (o.uid : ℤ) ≠ -1
      omega
    · change (o.gid : ℤ) ≠ -1
      omega
  unfold Account.counted Holder.Uses
  rw [Bool.and_eq_true, decide_eq_true_eq, decide_eq_true_eq]
  exact ⟨fun h => ⟨ha, h.1⟩, fun h => ⟨h.2, hid⟩⟩

theorem rollback_apply (b : Account) (r : Request) (s : Store) (a : Account) :
    OwnerChange.quotaRollback C b r s a =
      if a = b ∧ b.counted = true then (s a).map (Quotas.quotaDel C r.1 r.2) else s a := by
  rcases OwnerChange.quotaRollback_cases C b r s with ⟨hno, heq⟩ | ⟨q, hq, heq⟩
  · rw [heq]
    split_ifs with h
    · obtain ⟨rfl, hcounted⟩ := h
      rw [hno.resolve_left (by rw [hcounted]; decide)]
      rfl
    · rfl
  · by_cases hcounted : b.counted = true
    · rw [heq, Function.update_apply]
      by_cases hab : a = b
      · subst hab
        rw [if_pos rfl, if_pos ⟨rfl, hcounted⟩, hq]
        rfl
      · rw [if_neg hab, if_neg fun h => hab h.1]
    · have hsame : OwnerChange.quotaRollback C b r s = s := by
        unfold OwnerChange.quotaRollback
        exact if_neg hcounted
      rw [hsame, if_neg fun h => hcounted h.2]

/-- **A release** of the owner and the group. -/
theorem quotaRollback_apply (o : Holder) (r : Request) (s : Store) (a : Account) :
    quotaRollback C o r s a =
      if o.Uses a then (s a).map (Quotas.quotaDel C r.1 r.2) else s a := by
  unfold quotaRollback
  rw [rollback_apply, rollback_apply]
  by_cases huser : a = .user o.uid
  · subst huser
    rw [if_neg fun h => absurd h.1 (by simp)]
    exact if_congr (by rw [eq_self_iff_true, true_and, counted_iff o _ (Or.inl rfl)]) rfl rfl
  · by_cases hgroup : a = .group o.gid
    · subst hgroup
      rw [if_neg fun h : (Account.group o.gid = Account.user o.uid ∧ _) => absurd h.1 (by simp)]
      exact if_congr (by rw [eq_self_iff_true, true_and, counted_iff o _ (Or.inr rfl)]) rfl rfl
    · rw [if_neg fun h => hgroup h.1, if_neg fun h => huser h.1,
        if_neg fun h => h.1.elim huser hgroup]

theorem onQuotas_apply (f : Quotas → Quotas) (b : Account) (s : Store) (a : Account) :
    onQuotas f b s a = if a = b ∧ b.id ≠ QuotaStore.oneadminId then (s a).map f else s a := by
  unfold onQuotas
  by_cases hid : b.id ≠ QuotaStore.oneadminId
  · rw [if_pos hid, Function.update_apply]
    by_cases hab : a = b
    · subst hab
      rw [if_pos rfl, if_pos ⟨rfl, hid⟩]
    · rw [if_neg hab, if_neg fun h => hab h.1]
  · rw [if_neg hid, if_neg fun h => hid h.2]

/-- A change of the quotas of the owner and the group. -/
theorem onBoth_apply (f : Quotas → Quotas) (o : Holder) (s : Store) (a : Account) :
    onQuotas f (.group o.gid) (onQuotas f (.user o.uid) s) a =
      if o.Uses a then (s a).map f else s a := by
  rw [onQuotas_apply, onQuotas_apply]
  by_cases huser : a = .user o.uid
  · subst huser
    rw [if_neg fun h => absurd h.1 (by simp)]
    exact if_congr ⟨fun h => ⟨Or.inl rfl, h.2⟩, fun h => ⟨rfl, h.2⟩⟩ rfl rfl
  · by_cases hgroup : a = .group o.gid
    · subst hgroup
      rw [if_neg fun h : (Account.group o.gid = Account.user o.uid ∧ _) => absurd h.1 (by simp)]
      exact if_congr ⟨fun h => ⟨Or.inr rfl, h.2⟩, fun h => ⟨rfl, h.2⟩⟩ rfl rfl
    · rw [if_neg fun h => hgroup h.1, if_neg fun h => huser h.1,
        if_neg fun h => h.1.elim huser hgroup]

/-- What has happened to an account: `P` holds of its quotas before and after, if they are used, and
otherwise it is the same. -/
structure At (o : Holder) (a : Account) (s₀ s : Store) (P : Quotas → Quotas → Prop) : Prop where
  used : o.Uses a → ∀ q, s₀ a = some q → ∃ q', s a = some q' ∧ P q q'
  same : (o.Uses a → s₀ a = none) → s a = s₀ a

theorem At.mono (h : At o a s₀ s P) (hmono : ∀ q q', P q q' → Q q q') : At o a s₀ s Q := by
  refine ⟨fun ha q hq => ?_, h.same⟩
  obtain ⟨q', hq', hP⟩ := h.used ha q hq
  exact ⟨q', hq', hmono q q' hP⟩

theorem At.map (h : At o a s₀ s P) {f : Quotas → Quotas} (hf : ∀ q q', P q q' → Q q (f q'))
    (happly : s' a = if o.Uses a then (s a).map f else s a) : At o a s₀ s' Q := by
  refine ⟨fun ha q hq => ?_, fun hno => ?_⟩
  · obtain ⟨q', hq', hP⟩ := h.used ha q hq
    rw [if_pos ha, hq'] at happly
    exact ⟨f q', happly, hf q q' hP⟩
  · rw [happly, h.same hno]
    split_ifs with ha
    · rw [hno ha]
      rfl
    · rfl

theorem authorization_apply (h : OwnerChange.quotaAuthorization C defaults b r s = some s')
    (a : Account) :
    (a = b ∧ b.counted = true → ∃ q q', s a = some q ∧
      Quotas.quotaCheck C r.1 r.2 (defaults a) q = (none, q') ∧ s' a = some q') ∧
    (¬ (a = b ∧ b.counted = true) → s' a = s a) := by
  by_cases hcounted : b.counted = true
  · rcases OwnerChange.quotaAuthorization_cases h with ⟨hno, -⟩ | ⟨q, q', hq, hcheck, rfl⟩
    · exact absurd hcounted (by rw [hno]; decide)
    · refine ⟨?_, fun hne => ?_⟩
      · rintro ⟨rfl, -⟩
        exact ⟨q, q', hq, hcheck, Function.update_self _ _ _⟩
      · exact Function.update_of_ne (fun hab => hne ⟨hab, hcounted⟩) _ _
  · have hsame : s' = s := by
      unfold OwnerChange.quotaAuthorization at h
      rw [if_neg hcounted] at h
      exact (Option.some.inj h).symm
    rw [hsame]
    exact ⟨fun hb => absurd hb.2 hcounted, fun _ => rfl⟩

/-- **A charge that is accepted.** -/
theorem At.charge (h : At o a s₀ s P) (hauth : quotaAuthorization C defaults o r s = (true, s'))
    (hQ : ∀ q q' q'', P q q' → Quotas.quotaCheck C r.1 r.2 (defaults a) q' = (none, q'') → Q q q'') :
    At o a s₀ s' Q := by
  unfold quotaAuthorization at hauth
  split at hauth
  · exact absurd (Prod.mk.inj hauth).1 (by decide)
  · rename_i s₁ huser
    split at hauth
    · exact absurd (Prod.mk.inj hauth).1 (by decide)
    · rename_i s₂ hgroup
      obtain rfl := (Prod.mk.inj hauth).2
      obtain ⟨huser₁, huser₂⟩ := authorization_apply huser a
      obtain ⟨hgroup₁, hgroup₂⟩ := authorization_apply hgroup a
      have hone : (o.Uses a → ∃ q q', s a = some q ∧
          Quotas.quotaCheck C r.1 r.2 (defaults a) q = (none, q') ∧ s₂ a = some q') ∧
          (¬ o.Uses a → s₂ a = s a) := by
        refine ⟨fun ha => ?_, fun ha => ?_⟩
        · have hcounted := (counted_iff o a ha.1).mpr ha
          rcases ha.1 with rfl | rfl
          · rw [hgroup₂ fun hb => absurd hb.1 (by simp)]
            exact huser₁ ⟨rfl, hcounted⟩
          · rw [← huser₂ fun hb => absurd hb.1 (by simp)]
            exact hgroup₁ ⟨rfl, hcounted⟩
        · rw [hgroup₂ ?_, huser₂ ?_]
          · rintro ⟨rfl, hcounted⟩
            exact ha ((counted_iff o _ (Or.inl rfl)).mp hcounted)
          · rintro ⟨rfl, hcounted⟩
            exact ha ((counted_iff o _ (Or.inr rfl)).mp hcounted)
      refine ⟨fun ha q hq => ?_, fun hno => ?_⟩
      · obtain ⟨q', hq', hP⟩ := h.used ha q hq
        obtain ⟨q₁, q₂, hq₁, hcheck, hq₂⟩ := hone.1 ha
        obtain rfl := Option.some.inj (hq'.symm.trans hq₁)
        exact ⟨q₂, hq₂, hQ q q' q₂ hP hcheck⟩
      · by_cases ha : o.Uses a
        · obtain ⟨q₁, -, hq₁, -⟩ := hone.1 ha
          exact absurd ((h.same hno).symm.trans hq₁) (by rw [hno ha]; simp)
        · rw [hone.2 ha, h.same hno]

/-- A charge of one account that is rejected. -/
theorem rejection_apply (h : OwnerChange.quotaAuthorization C defaults b r s = none) (hq : s b = some q) :
    (Quotas.quotaCheck C r.1 r.2 (defaults b) q).1 ≠ none := by
  unfold OwnerChange.quotaAuthorization at h
  split at h
  · rw [hq] at h
    dsimp only at h
    intro hnone
    cases hcheck : Quotas.quotaCheck C r.1 r.2 (defaults b) q with
    | mk error q' =>
      rw [hcheck] at h hnone
      rw [show error = none from hnone] at h
      exact absurd h (by simp)
  · exact absurd h (by simp)

/-- **A charge that is rejected**: the account is the same, or it is the user who was charged and
released. -/
theorem At.reject (h : At o a s₀ s P) (hauth : quotaAuthorization C defaults o r s = (false, s'))
    (hkeep : ∀ q q', P q q' →
      ¬ (a = .user o.uid ∧ (Quotas.quotaCheck C r.1 r.2 (defaults a) q').1 = none) → Q q q')
    (hback : ∀ q q' q'', P q q' → a = .user o.uid →
      Quotas.quotaCheck C r.1 r.2 (defaults a) q' = (none, q'') → Q q (Quotas.quotaDel C r.1 r.2 q'')) :
    At o a s₀ s' Q := by
  unfold quotaAuthorization at hauth
  split at hauth
  · rename_i huser
    obtain rfl := (Prod.mk.inj hauth).2
    refine ⟨fun ha q hq => ?_, h.same⟩
    obtain ⟨q', hq', hP⟩ := h.used ha q hq
    refine ⟨q', hq', hkeep q q' hP ?_⟩
    rintro ⟨rfl, hnone⟩
    exact rejection_apply huser hq' hnone
  · rename_i s₁ huser
    split at hauth
    · rename_i hgroup
      obtain rfl := (Prod.mk.inj hauth).2
      obtain ⟨huser₁, huser₂⟩ := authorization_apply huser a
      by_cases ha : a = .user o.uid ∧ (Account.user o.uid).counted = true
      · obtain ⟨q₁, q₂, hq₁, hcheck, hq₂⟩ := huser₁ ha
        refine ⟨fun _ q hq => ?_, fun hno => ?_⟩
        · obtain ⟨q', hq', hP⟩ := h.used ((counted_iff o a (Or.inl ha.1)).mp (ha.1 ▸ ha.2)) q hq
          obtain rfl := Option.some.inj (hq'.symm.trans hq₁)
          refine ⟨_, ?_, hback q q' q₂ hP ha.1 hcheck⟩
          rw [rollback_apply, if_pos ha, hq₂]
          rfl
        · have huses := (counted_iff o a (Or.inl ha.1)).mp (ha.1 ▸ ha.2)
          exact absurd ((h.same hno).symm.trans hq₁) (by rw [hno huses]; simp)
      · have hsame : OwnerChange.quotaRollback C (.user o.uid) r s₁ a = s a := by
          rw [rollback_apply, if_neg ha, huser₂ ha]
        refine ⟨fun huses q hq => ?_, fun hno => hsame.trans (h.same hno)⟩
        obtain ⟨q', hq', hP⟩ := h.used huses q hq
        refine ⟨q', hsame.trans hq', hkeep q q' hP fun hboth => ha ⟨hboth.1, ?_⟩⟩
        have hcounted := (counted_iff o a huses.1).mpr huses
        rw [hboth.1] at hcounted
        exact hcounted
    · exact absurd (Prod.mk.inj hauth).1 (by decide)

end Views

/-! ## Charges and releases of an account -/

section Tracks

variable {C : QuotasConf} {defaults : Account → Quotas} {o : Holder} {a : Account}
  {s₀ s s' : Store} {c d i : List (Text × Usage)} {δ : Quotas → Text → Metric → ℚ} {g : Bool}
  {t : QuotaTemplate}

/-- What a request takes of the quotas of virtual machines. -/
def cost (C : QuotasConf) (t : QuotaTemplate) (q : Quotas) (id : Text) (m : Metric) : ℚ :=
  amountOf (vmCharges C (q .vm) t) id m

/-- `Track`, for quotas that are sound before. -/
def Tracks (C : QuotasConf) (c d i : List (Text × Usage)) (δ : Quotas → Text → Metric → ℚ) (g : Bool)
    (q q' : Quotas) : Prop := Sound C q ∧ Track C q q' c d i (δ q) g

theorem At.vmCharge (h : At o a s₀ s (Tracks C c d i δ g))
    (hauth : quotaAuthorization C defaults o (.vm, t) s = (true, s')) :
    At o a s₀ s' (Tracks C c d i (fun q id m => δ q id m + cost C t q id m)
      (g || !t.skipGlobalQuota)) :=
  h.charge hauth fun _ _ _ hP hcheck => ⟨hP.1, hP.2.chargeVm hP.1.clusters hcheck⟩

theorem At.vmRelease (h : At o a s₀ s (Tracks C c d i δ g)) (hg : t.skipGlobalQuota = false → g = true) :
    At o a s₀ (quotaRollback C o (.vm, t) s)
      (Tracks C c d i (fun q id m => δ q id m - cost C t q id m) (g && t.skipGlobalQuota)) :=
  h.map (fun _ _ hP => ⟨hP.1, hP.2.releaseVm hP.1.clusters hg⟩) (quotaRollback_apply o (.vm, t) s a)

theorem At.networkRelease (h : At o a s₀ s (Tracks C c d i δ g)) (t : QuotaTemplate) :
    At o a s₀ (quotaRollback C o (.network, t) s)
      (Tracks C c (d ++ networkCharges false t) i δ g) :=
  h.map (fun _ _ hP => ⟨hP.1, hP.2.releaseNetwork t⟩) (quotaRollback_apply o (.network, t) s a)

theorem At.give (h : At o a s₀ s (Tracks C c d i δ g)) (hskip : t.skipGlobalQuota = true) :
    At o a s₀ (staticVmAdd C o t s)
      (Tracks C c d i (fun q id m => δ q id m + cost C t q id m) g) :=
  h.map (fun _ _ hP => ⟨hP.1, hP.2.giveVm hP.1.clusters hskip⟩) (onBoth_apply _ o s a)

theorem At.releaseAll (h : At o a s₀ s (Tracks C c d [] δ g)) (hskip : t.skipGlobalQuota = true) :
    At o a s₀ (staticVmDel C o t s)
      (Tracks C c (d ++ networkCharges false t) (imageCharges t)
        (fun q id m => δ q id m - cost C t q id m) g) := by
  refine h.map (fun q q' hP => ⟨hP.1, ?_⟩) (onBoth_apply _ o s a)
  have hall := hP.2.releaseAll (t := t) hP.1.clusters fun hno => absurd (hskip.symm.trans hno) (by decide)
  rw [hskip, Bool.and_true] at hall
  exact hall

/-- A rejected charge of a virtual machine: a user who was charged is released. -/
theorem At.vmReject (h : At o a s₀ s (Tracks C c d i δ g))
    (hauth : quotaAuthorization C defaults o (.vm, t) s = (false, s'))
    (hg : g = true → t.skipGlobalQuota = true) : At o a s₀ s' (Tracks C c d i δ g) := by
  refine h.reject hauth (fun _ _ hP _ => hP) fun q q' q'' hP _ hcheck => ⟨hP.1, ?_⟩
  have hcharged := hP.2.chargeVm hP.1.clusters hcheck
  have hreleased := hcharged.releaseVm (t := t) hP.1.clusters fun hno => by rw [hno]; exact Bool.or_true g
  have hflag : ((g || !t.skipGlobalQuota) && t.skipGlobalQuota) = g := by
    cases hskip : t.skipGlobalQuota with
    | true => rw [Bool.not_true, Bool.or_false, Bool.and_true]
    | false =>
      cases g with
      | true => exact absurd ((hg rfl).symm.trans hskip) (by decide)
      | false => rfl
  rw [hflag] at hreleased
  exact hreleased.congr fun id m => by rw [add_sub_cancel_right]

end Tracks

/-! ## The points of a deploy -/

namespace Deploy

variable {C : QuotasConf} {defaults : Account → Quotas} {d : Deploy} {a : Account}
  {s₀ s s' : Store} {c l i : List (Text × Usage)} {δ : Quotas → Text → Metric → ℚ} {γ : Bool}
  {fl : DeployGuard} {e : DeployError}

/-- What the rollback takes back of the quotas of virtual machines. -/
def undone (C : QuotasConf) (d : Deploy) (fl : DeployGuard) (q : Quotas) (id : Text) (m : Metric) : ℚ :=
  (if fl.revertRunningQuota then cost C d.quotaTmplRunning q id m else 0) +
    if fl.revertClusterQuota then cost C d.merged q id m
    else if fl.revertClusterTransfer then
      cost C (d.quotaTmpl d.clusterId) q id m - cost C (d.quotaTmpl d.oldCid) q id m
    else 0

theorem skip_merged (d : Deploy) : d.merged.skipGlobalQuota = true := rfl

theorem skip_quotaTmpl (d : Deploy) (cluster : ℤ) : (d.quotaTmpl cluster).skipGlobalQuota = true := rfl

/-- **The guard** releases the interfaces, and what it says of the virtual machine. -/
theorem track_rollback (h : At d.owner a s₀ s (Tracks C c l i δ γ))
    (hrun : fl.revertRunningQuota = true → γ = true) :
    ∃ γ', At d.owner a s₀ (d.rollback C fl s)
      (Tracks C c (l ++ if fl.revertNetworkQuota then networkCharges false d.authorizedTmpl else []) i
        (fun q id m => δ q id m - undone C d fl q id m) γ') := by
  have hnet : At d.owner a s₀
      (if fl.revertNetworkQuota then quotaRollback C d.owner (.network, d.authorizedTmpl) s else s)
      (Tracks C c (l ++ if fl.revertNetworkQuota then networkCharges false d.authorizedTmpl else []) i
        δ γ) := by
    split_ifs
    · exact h.networkRelease d.authorizedTmpl
    · rw [List.append_nil]
      exact h
  unfold rollback
  dsimp only
  generalize (if fl.revertNetworkQuota then quotaRollback C d.owner (.network, d.authorizedTmpl) s
    else s) = s₁ at hnet ⊢
  generalize (l ++ if fl.revertNetworkQuota then networkCharges false d.authorizedTmpl else []) = l'
    at hnet ⊢
  have hrunning : ∃ γ', At d.owner a s₀
      (if fl.revertRunningQuota then quotaRollback C d.owner (.vm, d.quotaTmplRunning) s₁ else s₁)
      (Tracks C c l' i (fun q id m => δ q id m -
        if fl.revertRunningQuota then cost C d.quotaTmplRunning q id m else 0) γ') := by
    split_ifs with hrunning
    · exact ⟨_, hnet.vmRelease (t := d.quotaTmplRunning) fun _ => hrun hrunning⟩
    · simp only [sub_zero]
      exact ⟨γ, hnet⟩
  obtain ⟨γ', hrunning⟩ := hrunning
  generalize (if fl.revertRunningQuota then quotaRollback C d.owner (.vm, d.quotaTmplRunning) s₁
    else s₁) = s₂ at hrunning ⊢
  have hskip : ∀ {t : QuotaTemplate}, t.skipGlobalQuota = true → t.skipGlobalQuota = false → γ' = true :=
    fun hyes hno => absurd (hyes.symm.trans hno) (by decide)
  unfold undone
  by_cases hcluster : fl.revertClusterQuota = true
  · have hback := hrunning.vmRelease (t := d.merged) (hskip d.skip_merged)
    refine ⟨γ' && d.merged.skipGlobalQuota, ?_⟩
    simp only [hcluster, if_true, ← sub_sub]
    exact hback
  · by_cases htransfer : fl.revertClusterTransfer = true
    · have hgiven := hrunning.give (t := d.quotaTmpl d.oldCid) (d.skip_quotaTmpl _)
      have hback := hgiven.vmRelease (t := d.quotaTmpl d.clusterId) (hskip (d.skip_quotaTmpl _))
      refine ⟨γ' && (d.quotaTmpl d.clusterId).skipGlobalQuota, ?_⟩
      simp only [hcluster, htransfer, if_true, Bool.false_eq_true, if_false]
      refine hback.mono fun q q' hP => ⟨hP.1, hP.2.congr fun id m => ?_⟩
      ring
    · simp only [hcluster, htransfer, Bool.false_eq_true, if_false, add_zero]
      exact ⟨γ', hrunning⟩

/-- The networks `c` were charged and `l` released, the images `i` were released, and the quotas of
virtual machines are as before. -/
def Restored (C : QuotasConf) (c l i : List (Text × Usage)) (q q' : Quotas) : Prop :=
  ∃ g, Tracks C c l i (fun _ _ _ => 0) g q q'

/-- The networks that the rollback releases. -/
def reverted (d : Deploy) : List (Text × Usage) :=
  if d.checkNicAuto then networkCharges false d.authorizedTmpl else []

/-- The rollback of what was charged. -/
theorem restored_rollback (h : At d.owner a s₀ s (Tracks C c l i δ γ))
    (hrun : fl.revertRunningQuota = true → γ = true)
    (hnet : fl.revertNetworkQuota = d.checkNicAuto)
    (hδ : ∀ q id m, δ q id m = undone C d fl q id m) :
    At d.owner a s₀ (d.rollback C fl s) (Restored C c (l ++ d.reverted) i) := by
  obtain ⟨γ', hback⟩ := track_rollback h hrun
  rw [hnet] at hback
  refine hback.mono fun q q' hP => ⟨γ', hP.1, hP.2.congr fun id m => ?_⟩
  dsimp only
  rw [hδ, sub_self]

variable (fl) in
theorem restored_finish (h : At d.owner a s₀ s (Tracks C c l i δ γ))
    (hrun : fl.revertRunningQuota = true → γ = true)
    (hnet : fl.revertNetworkQuota = d.checkNicAuto)
    (hδ : ∀ q id m, δ q id m = undone C d fl q id m)
    (hfail : d.finish C fl s = .error (e, s')) :
    (e = .failed .vncPort ∨ e = .failed .history) ∧
      At d.owner a s₀ s' (Restored C c (l ++ d.reverted) i) := by
  unfold finish at hfail
  split at hfail
  · rename_i x hx
    obtain ⟨rfl, rfl⟩ := Prod.mk.inj (Except.error.inj hfail)
    refine ⟨?_, restored_rollback h hrun hnet hδ⟩
    have hmem := List.mem_of_find?_eq_some hx
    rcases List.mem_cons.mp hmem with rfl | hmem
    · exact Or.inl rfl
    · rw [List.mem_singleton.mp hmem]
      exact Or.inr rfl
  · exact absurd hfail (by simp)

/-- The charges of the cluster, and an error after them. -/
theorem restored_clusterQuotas (h : At d.owner a s₀ s (Tracks C c [] [] δ γ))
    (hrun : fl.revertRunningQuota = γ) (hnet : fl.revertNetworkQuota = d.checkNicAuto)
    (hcluster : fl.revertClusterQuota = false) (htransfer : fl.revertClusterTransfer = false)
    (hδ : ∀ q id m, δ q id m = undone C d fl q id m)
    (hfail : d.clusterQuotas C defaults fl s = .error (e, s')) :
    e ≠ .networkQuota ∧ At d.owner a s₀ s' (Restored C c
      ((if d.Transfers e then networkCharges false (d.quotaTmpl d.oldCid) else []) ++ d.reverted)
      (d.images e)) := by
  have hrun' : fl.revertRunningQuota = true → γ = true := fun h => hrun ▸ h
  have hno : ∀ {e}, (e = DeployError.clusterQuota ∨ d.oldCid = -1 ∨ d.oldCid = d.clusterId) →
      ¬ d.Transfers e := by
    rintro e h ⟨hold, hnew, hlast⟩
    rcases h with rfl | h | h
    · rcases hlast with h | h
      · exact absurd h (by simp)
      · exact absurd h (by simp)
    · exact hold h
    · exact hnew h
  have hlate : ∀ {e}, (e = DeployError.failed .vncPort ∨ e = .failed .history) →
      e ≠ .networkQuota := by
    rintro e (rfl | rfl)
    · simp
    · simp
  have hreject : ∀ {t : QuotaTemplate} {s₁ : Store}, t.skipGlobalQuota = true →
      quotaAuthorization C defaults d.owner (.vm, t) s = (false, s₁) →
      At d.owner a s₀ (d.rollback C fl s₁) (Restored C c ([] ++ d.reverted) []) := fun hskip hauth =>
    restored_rollback (h.vmReject hauth fun _ => hskip) hrun' hnet hδ
  unfold clusterQuotas at hfail
  unfold images
  split_ifs at hfail with hold hnew
  · split at hfail
    · rename_i s₁ hauth
      obtain ⟨rfl, rfl⟩ := Prod.mk.inj (Except.error.inj hfail)
      rw [if_neg (hno (Or.inl rfl)), if_neg (hno (Or.inl rfl))]
      exact ⟨by simp, hreject d.skip_merged hauth⟩
    · rename_i s₁ hauth
      have hcharged := h.vmCharge hauth
      rw [d.skip_merged, Bool.not_true, Bool.or_false] at hcharged
      have hδ' : ∀ q id m, δ q id m + cost C d.merged q id m =
          undone C d { fl with revertClusterQuota := true } q id m := by
        intro q id m
        rw [hδ]
        simp only [undone, hcluster, htransfer, Bool.false_eq_true, if_false, if_true, add_zero]
      obtain ⟨he, hat⟩ := restored_finish { fl with revertClusterQuota := true } hcharged hrun' hnet
        hδ' hfail
      rw [if_neg (hno (Or.inr (Or.inl hold))), if_neg (hno (Or.inr (Or.inl hold)))]
      exact ⟨hlate he, hat⟩
  · split at hfail
    · rename_i s₁ hauth
      obtain ⟨rfl, rfl⟩ := Prod.mk.inj (Except.error.inj hfail)
      rw [if_neg (hno (Or.inl rfl)), if_neg (hno (Or.inl rfl))]
      exact ⟨by simp, hreject (d.skip_quotaTmpl _) hauth⟩
    · rename_i s₁ hauth
      have hcharged := h.vmCharge hauth
      rw [d.skip_quotaTmpl, Bool.not_true, Bool.or_false] at hcharged
      have hmoved := hcharged.releaseAll (t := d.quotaTmpl d.oldCid) (d.skip_quotaTmpl _)
      have hδ' : ∀ q id m, δ q id m + cost C (d.quotaTmpl d.clusterId) q id m -
          cost C (d.quotaTmpl d.oldCid) q id m =
          undone C d { fl with revertClusterTransfer := true } q id m := by
        intro q id m
        rw [hδ, add_sub_assoc]
        simp only [undone, hcluster, htransfer, Bool.false_eq_true, if_false, if_true, add_zero]
      obtain ⟨he, hat⟩ := restored_finish { fl with revertClusterTransfer := true } hmoved hrun' hnet
        hδ' hfail
      rw [if_pos ⟨hold, hnew, he⟩, if_pos ⟨hold, hnew, he⟩]
      exact ⟨hlate he, hat⟩
  · obtain ⟨he, hat⟩ := restored_finish fl h hrun' hnet hδ hfail
    have hsame : d.oldCid = d.clusterId := not_not.mp hnew
    rw [if_neg (hno (Or.inr (Or.inr hsame))), if_neg (hno (Or.inr (Or.inr hsame)))]
    exact ⟨hlate he, hat⟩

/-- From the guard on. -/
theorem restored_guarded (h : At d.owner a s₀ s (Tracks C c [] [] (fun _ _ _ => 0) false))
    (hfail : d.guarded C defaults s = .error (e, s')) :
    e ≠ .networkQuota ∧ At d.owner a s₀ s' (Restored C c
      ((if d.Transfers e then networkCharges false (d.quotaTmpl d.oldCid) else []) ++ d.reverted)
      (d.images e)) := by
  have hnone : ∀ {e}, (∀ x ∈ [Check.vncPort, .history], e ≠ DeployError.failed x) → ¬ d.Transfers e := by
    rintro e hne ⟨-, -, h | h⟩
    · exact hne .vncPort (by simp) h
    · exact hne .history (by simp) h
  have hzero : ∀ b q id m, (0 : ℚ) = undone C d ⟨b, false, false, false⟩ q id m := by
    intro b q id m
    simp only [undone, Bool.false_eq_true, if_false, add_zero]
  unfold guarded at hfail
  dsimp only at hfail
  split at hfail
  · rename_i x hx
    obtain ⟨rfl, rfl⟩ := Prod.mk.inj (Except.error.inj hfail)
    have hmem : x ∈ d.checks := List.mem_of_find?_eq_some hx
    have hearly : ¬ d.Transfers (.failed x) := by
      refine hnone fun y hy heq => ?_
      obtain rfl := DeployError.failed.inj heq
      unfold checks at hmem
      rcases List.mem_cons.mp hy with rfl | hy
      · split_ifs at hmem <;> simp at hmem
      · rw [List.mem_singleton.mp hy] at hmem
        split_ifs at hmem <;> simp at hmem
    unfold images
    rw [if_neg hearly, if_neg hearly]
    exact ⟨by simp, restored_rollback h (fun hno => absurd hno Bool.false_ne_true) rfl (hzero _)⟩
  · split_ifs at hfail with hrunning
    · split at hfail
      · rename_i s₁ hauth
        obtain ⟨rfl, rfl⟩ := Prod.mk.inj (Except.error.inj hfail)
        have hearly : ¬ d.Transfers .runningQuota := hnone fun _ _ => by simp
        unfold images
        rw [if_neg hearly, if_neg hearly]
        exact ⟨by simp, restored_rollback (h.vmReject hauth fun hno => absurd hno (by decide))
          (fun hno => absurd hno Bool.false_ne_true) rfl (hzero _)⟩
      · rename_i s₁ hauth
        refine restored_clusterQuotas (h.vmCharge hauth) rfl rfl rfl rfl (fun q id m => ?_) hfail
        simp only [undone, Bool.false_eq_true, if_false, if_true, add_zero, zero_add]
    · exact restored_clusterQuotas h rfl rfl rfl rfl (hzero _) hfail

/-- The accounts before a deploy. -/
theorem at_refl (o : Holder) (hsound : ∀ q, s a = some q → Sound C q) :
    At o a s s fun q q' => Sound C q ∧ q' = q :=
  ⟨fun _ q hq => ⟨q, hq, hsound q hq, rfl⟩, fun _ => rfl⟩

/-- **What a failed deploy has done** to an account. -/
theorem track_deploy (hsound : ∀ q, s a = some q → Sound C q)
    (hfail : d.deploy C defaults s = .error (e, s')) :
    At d.owner a s s' fun q q' => ∃ g, Sound C q ∧ Track C q q' (d.charged C defaults e a q)
      (d.networks C defaults e a q) (d.images e) (fun _ _ => 0) g := by
  have hstart := at_refl d.owner hsound
  have haccepts : ∀ {e q}, e ≠ DeployError.networkQuota →
      (d.Accepts C defaults e a q ↔ d.checkNicAuto = true) := fun he =>
    ⟨fun h => h.1, fun h => ⟨h, fun heq => absurd heq he⟩⟩
  unfold deploy at hfail
  unfold charged networks
  split_ifs at hfail with hauto
  · split at hfail
    · rename_i s₁ hauth
      obtain ⟨rfl, rfl⟩ := Prod.mk.inj (Except.error.inj hfail)
      have hearly : ¬ d.Transfers .networkQuota := by
        rintro ⟨-, -, h | h⟩
        · exact absurd h (by simp)
        · exact absurd h (by simp)
      unfold images
      rw [if_neg hearly, if_neg hearly]
      simp only [List.nil_append]
      refine hstart.reject hauth ?_ ?_
      · rintro _ q ⟨hq, rfl⟩ hno
        have hrejects : ¬ d.Accepts C defaults .networkQuota a q := fun h => hno (h.2 rfl)
        rw [if_neg hrejects, if_neg hrejects]
        exact ⟨false, hq, Track.refl hq⟩
      · rintro _ q q'' ⟨hq, rfl⟩ ha hcheck
        have hyes : d.Accepts C defaults .networkQuota a q :=
          ⟨hauto, fun _ => ⟨ha, congrArg Prod.fst hcheck⟩⟩
        rw [if_pos hyes, if_pos hyes, if_pos trivial]
        exact ⟨false, hq, (Track.chargeNetwork hq hcheck).releaseNetwork d.tmpl⟩
    · rename_i s₁ hauth
      have hcharged : At d.owner a s s₁
          (Tracks C (networkCharges false d.tmpl) [] [] (fun _ _ _ => 0) false) := by
        refine hstart.charge hauth ?_
        rintro _ q q'' ⟨hq, rfl⟩ hcheck
        exact ⟨hq, Track.chargeNetwork hq hcheck⟩
      obtain ⟨he, hat⟩ := restored_guarded hcharged hfail
      refine hat.mono fun q q' hP => ?_
      obtain ⟨g, hq, htrack⟩ := hP
      unfold reverted at htrack
      rw [if_pos hauto] at htrack
      rw [if_pos ((haccepts he).mpr hauto), if_pos ((haccepts he).mpr hauto), if_neg he]
      exact ⟨g, hq, htrack⟩
  · have hnone : At d.owner a s s (Tracks C [] [] [] (fun _ _ _ => 0) false) := by
      refine hstart.mono ?_
      rintro _ q ⟨hq, rfl⟩
      exact ⟨hq, Track.refl hq⟩
    obtain ⟨he, hat⟩ := restored_guarded hnone hfail
    refine hat.mono fun q q' hP => ?_
    obtain ⟨g, hq, htrack⟩ := hP
    unfold reverted at htrack
    rw [if_neg hauto] at htrack
    rw [if_neg fun h => hauto ((haccepts he).mp h), if_neg fun h => hauto ((haccepts he).mp h)]
    exact ⟨g, hq, htrack⟩

/-! ## The interfaces -/

theorem countOf_append (l l' : List (Text × Usage)) (id : Text) :
    QuotaKind.countOf (l ++ l') id = QuotaKind.countOf l id + QuotaKind.countOf l' id :=
  List.countP_append

/-- An interface with an identifier is charged. -/
theorem countOf_nicTemplate (nics : List DeployNic) {id : Text} (hid : id ≠ []) :
    QuotaKind.countOf (networkCharges false (nicTemplate nics)) id =
      nics.countP fun nic => nic.networkId = id := by
  unfold networkCharges nicTemplate QuotaKind.countOf
  dsimp only
  rw [List.countP_map, List.countP_filter, List.countP_map]
  refine List.countP_congr fun nic _ => ?_
  simp only [Function.comp_apply, QuotaNic.usesLease, Bool.not_false, Bool.true_or, Bool.and_true,
    Bool.and_eq_true, decide_eq_true_eq, Bool.not_eq_true', Bool.and_eq_false_iff]
  constructor
  · exact fun h => h.1
  · rintro rfl
    have hne : nic.networkId.isEmpty = false := by
      cases h : nic.networkId with
      | nil => exact absurd h hid
      | cons x l => rfl
    exact ⟨rfl, Or.inr hne, hne⟩

/-- The authorization keeps an identifier. -/
theorem networkId_authorize (byName : DeployNic → Option ℕ) {nic : DeployNic} (h : nic.networkId ≠ []) :
    (nic.authorize byName).networkId = nic.networkId := by
  unfold DeployNic.authorize
  have hne : nic.networkId.isEmpty = false := by
    cases hid : nic.networkId with
    | nil => exact absurd hid h
    | cons x l => rfl
  rw [hne, Bool.not_false, Bool.or_true, Bool.true_or, if_pos rfl]

/-- What was charged is released. -/
theorem countOf_charged_le (C : QuotasConf) (defaults : Account → Quotas) (d : Deploy) (e : DeployError)
    (a : Account) (q : Quotas) {id : Text} (hvalid : (C.kind .network).isValid id = true) :
    QuotaKind.countOf (d.charged C defaults e a q) id ≤
      QuotaKind.countOf (d.networks C defaults e a q) id := by
  have hid : id ≠ [] := by
    rintro rfl
    rw [Quotas.isValid_nil (by decide)] at hvalid
    exact absurd hvalid Bool.false_ne_true
  unfold charged networks
  rw [countOf_append]
  refine le_trans ?_ (Nat.le_add_left _ _)
  split_ifs with haccepts he
  · exact le_refl _
  · unfold tmpl authorizedTmpl
    rw [countOf_nicTemplate _ hid, countOf_nicTemplate _ hid, List.countP_map]
    refine List.countP_mono_left fun nic _ hnic => ?_
    have heq : nic.networkId = id := of_decide_eq_true hnic
    have hkeep := networkId_authorize d.byName (heq ▸ hid : nic.networkId ≠ [])
    exact decide_eq_true (hkeep.trans heq)
  · exact le_refl _

end Deploy

/-! ## The points of a migration -/

namespace Migrate

variable {C : QuotasConf} {defaults : Account → Quotas} {r : Migrate} {a : Account} {s s' : Store}
  {charged : Bool}

/-- What the rollback of a migration leaves of the quotas of virtual machines. -/
def left (C : QuotasConf) (r : Migrate) (q : Quotas) (id : Text) (m : Metric) : ℚ :=
  cost C (r.quotaTmpl r.clusterId) q id m - cost C (r.quotaTmpl r.cClusterId) q id m

/-- **What a failed migration has done** to an account. -/
theorem track_migrate (hsound : ∀ q, s a = some q → Sound C q)
    (hfail : r.migrate C defaults s = .error (charged, s')) :
    At r.owner a s s' fun q q' => ∃ g, Sound C q ∧
      if charged = true ∧ r.cClusterId ≠ r.clusterId then
        Track C q q' [] (networkCharges false r.template) (imageCharges r.template) (r.left C q) g
      else Track C q q' [] [] [] (fun _ _ => 0) g := by
  have hstart : At r.owner a s s (Tracks C [] [] [] (fun _ _ _ => 0) false) := by
    refine (Deploy.at_refl r.owner hsound).mono ?_
    rintro _ q ⟨hq, rfl⟩
    exact ⟨hq, Track.refl hq⟩
  have hskip : ∀ cluster, (r.quotaTmpl cluster).skipGlobalQuota = true := fun _ => rfl
  unfold migrate finish at hfail
  split_ifs at hfail with hne hok hok'
  · split at hfail
    · rename_i s₁ hauth
      obtain ⟨rfl, rfl⟩ := Prod.mk.inj (Except.error.inj hfail)
      refine (hstart.vmReject hauth fun _ => hskip _).mono fun q q' hP => ⟨false, hP.1, ?_⟩
      rw [if_neg fun h => absurd h.1 Bool.false_ne_true]
      exact hP.2
    · exact absurd hfail (by simp)
  · split at hfail
    · rename_i s₁ hauth
      obtain ⟨rfl, rfl⟩ := Prod.mk.inj (Except.error.inj hfail)
      refine (hstart.vmReject hauth fun _ => hskip _).mono fun q q' hP => ⟨false, hP.1, ?_⟩
      rw [if_neg fun h => absurd h.1 Bool.false_ne_true]
      exact hP.2
    · rename_i s₁ hauth
      obtain ⟨rfl, rfl⟩ := Prod.mk.inj (Except.error.inj hfail)
      have hcharged := hstart.vmCharge hauth
      have hreleased := hcharged.vmRelease (t := r.quotaTmpl r.cClusterId) fun hno =>
        absurd ((hskip _).symm.trans hno) (by decide)
      have hgiven := hreleased.give (hskip r.cClusterId)
      have hall := hgiven.releaseAll (hskip r.cClusterId)
      unfold rollback
      rw [if_pos hne]
      refine hall.mono fun q q' hP => ?_
      have hleft : ∀ id m, r.left C q id m = 0 + cost C (r.quotaTmpl r.clusterId) q id m -
          cost C (r.quotaTmpl r.cClusterId) q id m + cost C (r.quotaTmpl r.cClusterId) q id m -
          cost C (r.quotaTmpl r.cClusterId) q id m := by
        intro id m
        unfold left
        ring
      have htrack := hP.2.congr hleft
      exact ⟨_, hP.1, (if_pos ⟨rfl, hne⟩).mpr htrack⟩
  · obtain ⟨rfl, rfl⟩ := Prod.mk.inj (Except.error.inj hfail)
    unfold rollback
    rw [if_neg hne]
    refine hstart.mono fun q q' hP => ⟨false, hP.1, ?_⟩
    rw [if_neg fun h => hne h.2]
    exact hP.2

/-- The clusters have one entry, or nothing is charged. -/
theorem left_iff (r : Migrate) (q : Quotas) :
    (∀ id, ∀ m ∈ (C.kind .vm).metrics, r.left C q id m = 0) ↔
      (getQuotaId (r.quotaTmpl r.clusterId) (q .vm) = getQuotaId (r.quotaTmpl r.cClusterId) (q .vm) ∨
        ∀ m ∈ (C.kind .vm).metrics, (vmRequest C r.template).amount m = 0) := by
  have hleft : ∀ id m, r.left C q id m =
      (if getQuotaId (r.quotaTmpl r.clusterId) (q .vm) = some id then
        (vmRequest C r.template).amount m else 0) -
      if getQuotaId (r.quotaTmpl r.cClusterId) (q .vm) = some id then
        (vmRequest C r.template).amount m else 0 := by
    intro id m
    have hskip : ∀ cluster, ¬ (id = [] ∧ (r.quotaTmpl cluster).skipGlobalQuota = false) := fun _ h =>
      absurd h.2 (by unfold quotaTmpl; simp)
    unfold left cost
    rw [amountOf_vmCharges_eq, amountOf_vmCharges_eq, if_neg (hskip _), if_neg (hskip _), add_zero,
      add_zero]
    rfl
  constructor
  · intro hzero
    by_cases hsame : getQuotaId (r.quotaTmpl r.clusterId) (q .vm) =
        getQuotaId (r.quotaTmpl r.cClusterId) (q .vm)
    · exact Or.inl hsame
    · refine Or.inr fun m hm => ?_
      cases hnew : getQuotaId (r.quotaTmpl r.clusterId) (q .vm) with
      | some id =>
        have h := hzero id m hm
        rw [hleft, if_pos hnew, if_neg fun hold => hsame (hnew.trans hold.symm), sub_zero] at h
        exact h
      | none =>
        cases hold : getQuotaId (r.quotaTmpl r.cClusterId) (q .vm) with
        | none => exact absurd (hnew.trans hold.symm) hsame
        | some id =>
          have h := hzero id m hm
          rw [hleft, if_pos hold, hnew, if_neg (by simp), zero_sub, neg_eq_zero] at h
          exact h
  · rintro (hsame | hnone) id m hm
    · rw [hleft, hsame, sub_self]
    · rw [hleft, hnone m hm, ite_self, ite_self, sub_zero]

end Migrate

/-! ## When the quotas are restored -/

section Restore

variable {C : QuotasConf} {defaults : Account → Quotas} {o : Holder} {s s' : Store}

theorem sameUsage_iff {R : Account → Quotas → Prop}
    (h : ∀ a, At o a s s' fun q q' => (∀ n id m, m ∈ (C.kind n).metrics →
      Quotas.usage C q' n id m = Quotas.usage C q n id m) ↔ R a q) :
    SameUsage C s s' ↔ ∀ a q, o.Uses a → s a = some q → R a q := by
  constructor
  · intro hsame a q ha hq
    obtain ⟨q', hq', hiff⟩ := (h a).used ha q hq
    refine hiff.mp fun n id m hm => ?_
    have hone := hsame a n id m hm
    rw [hq, hq'] at hone
    exact hone
  · intro hall a n id m hm
    by_cases hused : o.Uses a ∧ ∃ q, s a = some q
    · obtain ⟨ha, q, hq⟩ := hused
      obtain ⟨q', hq', hiff⟩ := (h a).used ha q hq
      rw [hq, hq']
      exact hiff.mpr (hall a q ha hq) n id m hm
    · have hno : o.Uses a → s a = none := by
        intro ha
        cases hq : s a with
        | none => rfl
        | some q => exact absurd ⟨ha, q, hq⟩ hused
      rw [(h a).same hno]

theorem allUnits_nil (u : Metric) : QuotaKind.AllUnits u [] := fun _ hx => absurd hx List.not_mem_nil

theorem allUnits_append {u : Metric} {l l' : List (Text × Usage)} (h : QuotaKind.AllUnits u l)
    (h' : QuotaKind.AllUnits u l') : QuotaKind.AllUnits u (l ++ l') := fun x hx =>
  (List.mem_append.mp hx).elim (h x) (h' x)

theorem allUnits_ite {u : Metric} {p : Prop} [Decidable p] {l : List (Text × Usage)}
    (h : QuotaKind.AllUnits u l) : QuotaKind.AllUnits u (if p then l else []) := by
  split_ifs
  · exact h
  · exact allUnits_nil u

/-- Nothing is charged and nothing is released. -/
theorem returns_nil (C : QuotasConf) (q : Quotas) : Returns C q [] [] [] := by
  have hzero : ∀ {K : QuotaKind} {u : Metric} (e : QuotaEntry), K.Restores u e 0 0 := by
    intro K u e
    refine Or.inr ⟨?_, rfl⟩
    rintro ⟨-, j, h1, h0, -⟩
    omega
  exact ⟨fun _ e _ _ => hzero e, fun _ e _ _ => hzero e⟩

/-- **A failed deploy or migration restores the usage exactly when** the networks are released as often as
they were charged, no image is released, and both clusters of a migration have one entry: for every
point at which the request fails. -/
theorem sameUsage_iff_restorable (C : QuotasConf) (defaults : Account → Quotas) (s s' : Store)
    (hsound : ∀ a q, s a = some q → Sound C q) :
    (∀ (d : Deploy) e, d.deploy C defaults s = .error (e, s') →
      (SameUsage C s s' ↔ d.Restorable C defaults e s)) ∧
    ∀ (r : Migrate) charged, r.migrate C defaults s = .error (charged, s') →
      (SameUsage C s s' ↔ r.Restorable C charged s) := by
  refine ⟨fun d e hfail => ?_, fun r charged hfail => ?_⟩
  · refine sameUsage_iff fun a => (Deploy.track_deploy (hsound a) hfail).mono ?_
    rintro q q' ⟨g, hq, htrack⟩
    have hiff := htrack.usage_iff hq (allUnits_ite (allUnits_networkCharges _))
      (allUnits_append (allUnits_ite (allUnits_networkCharges _))
        (allUnits_ite (allUnits_networkCharges _)))
      (allUnits_ite (allUnits_imageCharges _)) fun id hvalid =>
        Deploy.countOf_charged_le C defaults d e a q hvalid
    rw [hiff]
    exact and_iff_left fun _ _ _ => rfl
  · have hat : ∀ a, At r.owner a s s' fun q q' => (∀ n id m, m ∈ (C.kind n).metrics →
        Quotas.usage C q' n id m = Quotas.usage C q n id m) ↔
        (charged = true ∧ r.cClusterId ≠ r.clusterId →
          (getQuotaId (r.quotaTmpl r.clusterId) (q .vm) = getQuotaId (r.quotaTmpl r.cClusterId) (q .vm) ∨
            ∀ m ∈ (C.kind .vm).metrics, (vmRequest C r.template).amount m = 0) ∧
          Returns C q [] (networkCharges false r.template) (imageCharges r.template)) := by
      refine fun a => (Migrate.track_migrate (hsound a) hfail).mono ?_
      rintro q q' ⟨g, hq, htrack⟩
      split_ifs at htrack with hcharged
      · rw [htrack.usage_iff hq (allUnits_nil _) (allUnits_networkCharges _) (allUnits_imageCharges _)
          fun _ _ => Nat.zero_le _, Migrate.left_iff, and_comm]
        exact ⟨fun h _ => h, fun h => h hcharged⟩
      · rw [htrack.usage_iff hq (allUnits_nil _) (allUnits_nil _) (allUnits_nil _) fun _ _ => le_refl _]
        exact iff_of_true ⟨returns_nil C q, fun _ _ _ => rfl⟩ fun h => absurd h hcharged
    rw [sameUsage_iff hat]
    unfold Migrate.Restorable
    exact ⟨fun h hc hne a q ha hq => h a q ha hq ⟨hc, hne⟩,
      fun h a q ha hq hboth => h hboth.1 hboth.2 a q ha hq⟩

end Restore

/-! ## Requests that fail -/

/-- The error of a request, and the quotas after it. -/
def errorOf {ε : Type} : Except (ε × Store) Store → Option ε
  | .error (e, _) => some e
  | .ok _ => none

def storeAfter {ε : Type} : Except (ε × Store) Store → Store
  | .error (_, s) => s
  | .ok s => s

theorem eq_of_errorOf {ε : Type} {x : Except (ε × Store) Store} {e : ε} (h : errorOf x = some e) :
    x = .error (e, storeAfter x) := by
  cases x with
  | error p => rw [← Option.some.inj h]; rfl
  | ok s => exact absurd h (by simp [errorOf])

open QuotaAccount (conf cpuLimit vmOf)

/-- The clusters 0 and 1, without virtual machines. -/
def twoPools : QuotaPools := ⟨[0, 1], fun _ _ _ => []⟩

/-- A user with a limit for some clusters. -/
def limitedTo (ids : String) (q : Quotas) : Quotas := (Quotas.set conf twoPools (cpuLimit ids (some 10)) q).2

/-- A user with a virtual machine in the cluster 0. -/
def charged (q : Quotas) : Quotas := (Quotas.quotaCheck conf .vm (vmOf 2) (fun _ => []) q).2

/-- One entry for both clusters, and one entry for each. -/
def oneEntry : Quotas := charged (limitedTo "0,1" fun _ => [])

def twoEntries : Quotas := charged (limitedTo "1" (limitedTo "0" fun _ => []))

/-- The user 2 has these quotas, and the group 100 has none. -/
def storeOf (q : Quotas) : Store := fun a =>
  if a = .user 2 then some q else if a = .group 100 then some fun _ => [] else none

theorem sound_limitedTo {ids : String} {q : Quotas} (h : Sound conf q)
    (hok : (Quotas.set conf twoPools (cpuLimit ids (some 10)) q).1 = none) :
    Sound conf (limitedTo ids q) := by
  refine h.set twoPools (fun n hn va hva => ?_) (Prod.ext hok rfl)
  cases n with
  | vm => exact absurd rfl hn
  | datastore | network | image => exact absurd hva List.not_mem_nil

theorem sound_charged {q : Quotas} (h : Sound conf q)
    (hok : (Quotas.quotaCheck conf .vm (vmOf 2) (fun _ => []) q).1 = none) : Sound conf (charged q) :=
  h.check (Prod.ext hok rfl)

theorem sound_oneEntry : Sound conf oneEntry :=
  sound_charged (sound_limitedTo (sound_nil rfl) (by decide +kernel)) (by decide +kernel)

theorem sound_twoEntries : Sound conf twoEntries :=
  sound_charged (sound_limitedTo (sound_limitedTo (sound_nil rfl) (by decide))
    (by decide +kernel)) (by decide +kernel)

theorem sound_storeOf {C : QuotasConf} {q : Quotas} (h : Sound C q) (a : Account) (q' : Quotas)
    (hq : storeOf q a = some q') : Sound C q' := by
  unfold storeOf at hq
  split_ifs at hq
  · rw [← Option.some.inj hq]
    exact h
  · rw [← Option.some.inj hq]
    exact sound_nil h.notDefault

/-- An undeployed virtual machine of the cluster 0, with an interface, is deployed in the cluster 1, which
has no port. -/
def moved : Deploy where
  owner := ⟨2, 100⟩
  state := .undeployed
  cid := some 0
  stopped := true
  basic := { vmOf 2 with nics := [⟨"7".toList, false, false⟩] }
  running := fun m => if m = "RUNNING_CPU".toList then some (some 2) else none
  clusterId := 1
  template := none
  byName := fun _ => none
  passes := fun c => c ≠ .vncPort

/-- A virtual machine of the cluster 0 is migrated to the cluster 1, and the migration fails. -/
def migrated : Migrate := ⟨⟨2, 100⟩, vmOf 2, 0, 1, true, false⟩

/-- A network with one lease and a limit. -/
def leased : Quotas
  | .network => [⟨"5".toList, [], fun _ => 10, fun _ => 1⟩]
  | _ => []

theorem sound_leased {C : QuotasConf} (h : C.isDefault = false) : Sound C leased := by
  refine ⟨h, fun n hn => ?_, clusterTidy_nil C, fun _ _ _ he => absurd he (by simp [leased, find_nil])⟩
  cases n with
  | vm => exact absurd rfl hn
  | datastore | image => exact ⟨List.nodup_nil, fun _ he => absurd he List.not_mem_nil⟩
  | network => exact ⟨List.nodup_singleton _, fun e he => by rw [List.mem_singleton.mp he]⟩

/-- A new virtual machine is deployed with an interface on the network 5, given by its name, and the
request is not authorized. -/
def named : Deploy where
  owner := ⟨2, 100⟩
  state := .pending
  cid := none
  stopped := false
  basic := vmOf 2
  running := fun _ => none
  clusterId := 0
  template := some [⟨[], "lan".toList, false⟩]
  byName := fun _ => some 5
  passes := fun c => c ≠ .authorization

theorem error_named : errorOf (named.deploy conf (fun _ _ => []) (storeOf leased)) =
    some (.failed .authorization) := by
  decide

theorem error_moved : errorOf (moved.deploy conf (fun _ _ => []) (storeOf twoEntries)) =
    some (.failed .vncPort) := by
  decide +kernel

theorem error_migrated (q : Quotas) (hq : q = oneEntry ∨ q = twoEntries) :
    errorOf (migrated.migrate conf (fun _ _ => []) (storeOf q)) = some true := by
  rcases hq with rfl | rfl
  · decide +kernel
  · decide +kernel

/-- Without entries for networks and images nothing can go wrong with them. -/
theorem returns_storeOf {q q' : Quotas} {a : Account} (hnet : (q .network).isEmpty = true)
    (himage : (q .image).isEmpty = true) (hq : storeOf q a = some q')
    (c l i : List (Text × Usage)) : Returns conf q' c l i := by
  have hempty : q' .network = [] ∧ q' .image = [] := by
    unfold storeOf at hq
    split_ifs at hq
    · rw [← Option.some.inj hq]
      exact ⟨List.isEmpty_iff.mp hnet, List.isEmpty_iff.mp himage⟩
    · rw [← Option.some.inj hq]
      exact ⟨rfl, rfl⟩
  refine ⟨fun id e _ he => ?_, fun id e _ he => ?_⟩
  · rw [hempty.1, find_nil] at he
    exact absurd he (by simp)
  · rw [hempty.2, find_nil] at he
    exact absurd he (by simp)

/-- Two failed requests that restore the usage. -/
theorem sameUsage_moved :
    (∃ s', moved.deploy conf (fun _ _ => []) (storeOf twoEntries) = .error (.failed .vncPort, s') ∧
      SameUsage conf (storeOf twoEntries) s') ∧
    ∃ s', migrated.migrate conf (fun _ _ => []) (storeOf oneEntry) = .error (true, s') ∧
      SameUsage conf (storeOf oneEntry) s' := by
  have hdeploy := eq_of_errorOf error_moved
  have hmigrate := eq_of_errorOf (error_migrated oneEntry (Or.inl rfl))
  refine ⟨⟨_, hdeploy, ?_⟩, ⟨_, hmigrate, ?_⟩⟩
  · refine ((sameUsage_iff_restorable conf _ _ _ (sound_storeOf sound_twoEntries)).1 moved _
      hdeploy).mpr fun a q _ hq => ?_
    exact returns_storeOf (by decide) (by decide) hq _ _ _
  · refine ((sameUsage_iff_restorable conf _ _ _ (sound_storeOf sound_oneEntry)).2 migrated _
      hmigrate).mpr fun _ _ a q _ hq => ⟨Or.inl ?_, ?_⟩
    · unfold storeOf at hq
      split_ifs at hq
      · rw [← Option.some.inj hq]
        decide +kernel
      · rw [← Option.some.inj hq]
        rfl
    · exact returns_storeOf (by decide) (by decide) hq _ _ _

/-- **Two failed requests that change the usage.**  The deploy releases a lease that it did not charge, and
the migration takes the virtual machine from the old cluster twice. -/
theorem not_sameUsage :
    (∃ s', named.deploy conf (fun _ _ => []) (storeOf leased) = .error (.failed .authorization, s') ∧
      ¬ SameUsage conf (storeOf leased) s') ∧
    ∃ s', migrated.migrate conf (fun _ _ => []) (storeOf twoEntries) = .error (true, s') ∧
      ¬ SameUsage conf (storeOf twoEntries) s' := by
  refine ⟨⟨_, eq_of_errorOf error_named, fun hsame => ?_⟩,
    ⟨_, eq_of_errorOf (error_migrated twoEntries (Or.inr rfl)), fun hsame => ?_⟩⟩
  · have hused := hsame (.user 2) .network "5".toList "LEASES".toList (by decide)
    have hbefore : QuotaStore.usageOf conf (storeOf leased (.user 2)) .network "5".toList
        "LEASES".toList = 1 := by decide
    have hafter : QuotaStore.usageOf conf
        (storeAfter (named.deploy conf (fun _ _ => []) (storeOf leased)) (.user 2)) .network "5".toList
        "LEASES".toList = 0 := by decide +kernel
    rw [hbefore, hafter] at hused
    exact absurd hused (by norm_num)
  · have hused := hsame (.user 2) .vm "1".toList "CPU".toList (by decide)
    have hbefore : QuotaStore.usageOf conf (storeOf twoEntries (.user 2)) .vm "1".toList
        "CPU".toList = 0 := by decide +kernel
    have hafter : QuotaStore.usageOf conf
        (storeAfter (migrated.migrate conf (fun _ _ => []) (storeOf twoEntries)) (.user 2)) .vm
        "1".toList "CPU".toList = 2 := by decide +kernel
    rw [hbefore, hafter] at hused
    exact absurd hused (by norm_num)

end DeployQuota
