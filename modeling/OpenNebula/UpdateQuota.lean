/-
# The quotas of a template update (`VirtualMachineAPI::update`)

The generic metrics of the quotas may be attributes of the user template.  An update computes the new user
template, replaces each generic metric in it by its change, adds the running part if the virtual machine counts,
and has the quotas of virtual machines charged with what results, if a metric changes.

The user template has other attributes too, and the check reads them: `CPU`, `DISK`, `CLUSTER_ID` and so on.
`update_charges_iff` says when the usage changes by the changes of the generic metrics and by nothing else.

Conventions of the embedding:

* An attribute is given by what the quotas read of it: a number with its validity, a whole number and
  `YES` of a single one, and an interface, a disk or a snapshot of a vector.
* A text that starts with a number but is not one leaves this number in the variable that it is read to.
* The parser of the text, the restricted attributes and `post_update_template` are parameters: the parsed
  template, and whether the template is written.
-/
import OpenNebula.DeployQuota

open KeyedList ClusterQuota

namespace UpdateQuota

open OwnerChange (Account emptyTemplate)
open DeployQuota
open QuotaStore (SameUsage)

/-! ## User templates -/

/-- What the quotas read of a vector attribute. -/
structure QuotaVector where
  isEmpty : Bool
  isNic : Bool
  nic : QuotaNic
  disk : QuotaDisk
  size : Option ℤ

/-- An attribute of a user template. -/
inductive UserAttribute where
  | single (number : Bool × ℚ) (int : Option ℤ) (yes : Bool)
  | vector (v : QuotaVector)

/-- A user template: the attributes of each name, in the order of insertion. -/
abbrev UserTemplate := Text → List UserAttribute

namespace UserTemplate

/-- `Template::get` for a number: whether it is one, and the value of the variable. -/
def getNumber (t : UserTemplate) (name : Text) : Bool × ℚ :=
  match t name with
  | .single number _ _ :: _ => number
  | _ => (false, 0)

/-- The number of an attribute; one that is missing or not a number counts as 0. -/
def value (t : UserTemplate) (name : Text) : ℚ :=
  if (t.getNumber name).1 then (t.getNumber name).2 else 0

/-- `Template::get` for the vector attributes of a name. -/
def vectors (t : UserTemplate) (name : Text) : List QuotaVector :=
  (t name).filterMap fun a => match a with
    | .single _ _ _ => none
    | .vector v => some v

/-- `Template::merge`: the names of the other template are replaced, and its empty vectors are dropped. -/
def merge (t other : UserTemplate) : UserTemplate := fun name =>
  if (other name).isEmpty then t name
  else (other name).filter fun a => match a with
    | .single _ _ _ => true
    | .vector v => !v.isEmpty

/-- The template as the quotas of virtual machines read it. -/
def quotaTemplate (t : UserTemplate) : QuotaTemplate where
  datastore := []
  images := none
  clusterId := match t "CLUSTER_ID".toList with
    | .single _ int _ :: _ => int
    | _ => none
  skipGlobalQuota := match t "SKIP_GLOBAL_QUOTA".toList with
    | .single _ _ yes :: _ => yes
    | _ => false
  value := fun m => if (t.getNumber m).1 then some (t.getNumber m).2 else none
  nics := (t.vectors "NIC".toList ++ (t.vectors "PCI".toList).filter QuotaVector.isNic ++
    t.vectors "NIC_ALIAS".toList).map QuotaVector.nic
  disks := (t.vectors "DISK".toList).map QuotaVector.disk
  snapshots := (t.vectors "SNAPSHOT".toList).map QuotaVector.size

end UserTemplate

/-- A number that the update writes. -/
def numberAttribute (x : ℚ) : UserAttribute :=
  .single (true, x) (if x.den = 1 then some x.num else none) false

/-- The name of the running part of a metric. -/
def runningName (m : Metric) : Metric := "RUNNING_".toList ++ m

/-! ## The update -/

/-- What an update reads: of the virtual machine its owner, whether it counts as running, the cluster of its
history and its user template; and the parsed text, whether it is appended, and whether the template is
written. -/
structure Update where
  owner : Holder
  isRunningQuota : Bool
  cid : Option ℤ
  userTemplate : UserTemplate
  text : UserTemplate
  append : Bool
  writes : Bool

/-- Why an update fails. -/
inductive UpdateError where
  | quota
  | template
  deriving DecidableEq

namespace Update

variable (u : Update)

/-- The new user template. -/
def newTemplate : UserTemplate := if u.append then u.userTemplate.merge u.text else u.text

/-- One generic metric: it is replaced by its change. -/
def deltaStep (p : UserTemplate × Bool) (m : Metric) : UserTemplate × Bool :=
  let old := u.userTemplate.getNumber m
  let new := p.1.getNumber m
  if old.1 || new.1 then
    (Function.update p.1 m [numberAttribute (new.2 - old.2)], p.2 || (new.2 - old.2 ≠ 0 : Bool))
  else p

/-- The loop over the generic metrics: the template, and `do_quotas`. -/
def deltas (generic : List Metric) : UserTemplate × Bool :=
  generic.foldl u.deltaStep (u.newTemplate, false)

/-- The running part of one metric. -/
def addRunning (t : UserTemplate) (m : Metric) : UserTemplate :=
  match t m with
  | .single number int yes :: _ =>
    Function.update t (runningName m) (t (runningName m) ++ [.single number int yes])
  | _ => t

/-- `QuotaVirtualMachine::add_running_quota_generic`. -/
def addRunningQuotaGeneric (generic : List Metric) (t : UserTemplate) : UserTemplate :=
  generic.foldl addRunning t

/-- The template that is charged. -/
def charge (generic : List Metric) : QuotaTemplate :=
  let t := (u.deltas generic).1
  (if u.isRunningQuota then addRunningQuotaGeneric generic t else t).quotaTemplate

/-- `VirtualMachineAPI::update`, from the parsed text on. -/
def update (C : QuotasConf) (defaults : Account → Quotas) (s : Store) :
    Except (UpdateError × Store) Store :=
  if (u.deltas C.generic).2 then
    match quotaAuthorization C defaults u.owner (.vm, u.charge C.generic) s with
    | (false, s₁) => .error (.quota, s₁)
    | (true, s₁) =>
      if u.writes then .ok s₁
      else .error (.template, quotaRollback C u.owner (.virtualMachine, u.charge C.generic) s₁)
  else if u.writes then .ok s
  else .error (.template, s)

end Update

/-! ## What the usage should do -/

namespace Update

variable (u : Update)

/-- The change of a generic metric: its new value minus its old one. -/
def delta (m : Metric) : ℚ := u.newTemplate.value m - u.userTemplate.value m

/-- The difference of the two variables, where one of the attributes is a number. -/
def change (m : Metric) : ℚ :=
  if (u.userTemplate.getNumber m).1 || (u.newTemplate.getNumber m).1 then
    (u.newTemplate.getNumber m).2 - (u.userTemplate.getNumber m).2
  else 0

/-- The new template, with the changes of the generic metrics. -/
def changed (generic : List Metric) : UserTemplate := fun name =>
  if name ∈ generic ∧ ((u.userTemplate.getNumber name).1 || (u.newTemplate.getNumber name).1) then
    [numberAttribute (u.change name)]
  else u.newTemplate name

/-- The amounts of an update: the changes of the generic metrics, and of their running parts if the virtual
machine counts. -/
def amounts (generic : List Metric) (m : Metric) : ℚ :=
  if m ∈ generic then u.delta m
  else
    match generic.find? fun g => runningName g = m with
    | some g => if u.isRunningQuota then u.delta g else 0
    | none => 0

/-- The entry of the cluster of the virtual machine. -/
def clusterEntry (q : Quotas) : Option Text := getQuotaId { emptyTemplate with clusterId := u.cid } (q .vm)

/-- What an update adds to an entry of an account: the amounts, to the global entry and to the one of the
cluster. -/
def share (C : QuotasConf) (a : Account) (o : Option Quotas) (n : QuotaName) (id : Text) (m : Metric) : ℚ :=
  match o with
  | none => 0
  | some q =>
    if n = .vm ∧ u.owner.Uses a ∧ (id = [] ∨ u.clusterEntry q = some id) then u.amounts C.generic m
    else 0

/-- The usage changes by what the update adds, in some entries. -/
def Charges (C : QuotasConf) (entries : QuotaName → Text → Prop) (s s' : Store) : Prop :=
  ∀ a n id m, m ∈ (C.kind n).metrics → entries n id →
    QuotaStore.usageOf C (s' a) n id m = QuotaStore.usageOf C (s a) n id m + u.share C a (s a) n id m

/-- All the entries but those of clusters, and those of clusters. -/
def isGlobal (n : QuotaName) (id : Text) : Prop := n = .vm → id = []

def isCluster (n : QuotaName) (id : Text) : Prop := n = .vm ∧ id ≠ []

/-- The metrics of virtual machines but the size of the disks. -/
def standardMetrics : List Metric :=
  ["VMS", "RUNNING_VMS", "CPU", "RUNNING_CPU", "MEMORY", "RUNNING_MEMORY", "PCI_DEV",
    "RUNNING_PCI_DEV", "PCI_NIC", "RUNNING_PCI_NIC"].map String.toList

/-- A generic metric changes. -/
def Changes (generic : List Metric) : Prop := ∃ g ∈ generic, u.change g ≠ 0

instance (generic : List Metric) : Decidable (u.Changes generic) :=
  inferInstanceAs (Decidable (∃ g ∈ generic, _))

/-- **The template has nothing else that the quotas read**: no number for another metric and no size of
disks; a generic metric that is not a number does not start with one, and a running part of it that the
user gives is the right one. -/
structure Plain (generic : List Metric) : Prop where
  metrics : ∀ m ∈ standardMetrics, u.newTemplate.value m = 0
  size : (u.changed generic).quotaTemplate.systemDsSize +
    (u.changed generic).quotaTemplate.getSnapshotsSystemSize = 0
  changes : ∀ g ∈ generic, u.change g = u.delta g
  running : ∀ g ∈ generic, u.newTemplate (runningName g) ≠ [] →
    u.newTemplate.value (runningName g) = if u.isRunningQuota then u.delta g else 0

/-- When the global entry changes by the amounts of the update. -/
def GlobalRight (generic : List Metric) : Prop :=
  if u.Changes generic ∧ (u.changed generic).quotaTemplate.skipGlobalQuota = false then u.Plain generic
  else ∀ g ∈ generic, u.delta g = 0

/-- When the entries of clusters do: the template has the cluster of the virtual machine, or neither of
them has an entry. -/
def ClusterRight (generic : List Metric) (q : Quotas) : Prop :=
  let entry := getQuotaId (u.changed generic).quotaTemplate (q .vm)
  if u.Changes generic ∧ entry = u.clusterEntry q then u.clusterEntry q = none ∨ u.Plain generic
  else (u.Changes generic → entry = none) ∧ (u.clusterEntry q = none ∨ ∀ g ∈ generic, u.delta g = 0)

/-- When an update that is not written changes nothing: the interfaces and the disks of the new template
are not charged, and they are released. -/
def FailureRight (C : QuotasConf) (e : UpdateError) (s : Store) : Prop :=
  e = .template → u.Changes C.generic → ∀ a q, u.owner.Uses a → s a = some q →
    Returns C q [] (networkCharges false (u.changed C.generic).quotaTemplate)
      (imageCharges (u.changed C.generic).quotaTemplate)

end Update

/-! ## Generic metrics -/

section Generic

variable {generic : List Metric} {g h : Metric}

theorem runningName_injective : Function.Injective runningName := fun _ _ h =>
  List.append_cancel_left h

theorem mem_vmMetrics {m : Metric} : m ∈ vmMetrics generic ↔
    m ∈ Update.standardMetrics ∨ m = "SYSTEM_DISK_SIZE".toList ∨
      ∃ g ∈ generic, m = g ∨ m = runningName g := by
  unfold vmMetrics
  rw [List.mem_append, show (["VMS", "RUNNING_VMS", "CPU", "RUNNING_CPU", "MEMORY", "RUNNING_MEMORY",
    "PCI_DEV", "RUNNING_PCI_DEV", "PCI_NIC", "RUNNING_PCI_NIC", "SYSTEM_DISK_SIZE"].map
      String.toList) = Update.standardMetrics ++ ["SYSTEM_DISK_SIZE".toList] from rfl,
    List.mem_append, List.mem_singleton, or_assoc]
  refine or_congr_right (or_congr_right ?_)
  rw [List.mem_flatMap]
  exact exists_congr fun g => and_congr_right fun _ => by
    rw [List.mem_cons, List.mem_singleton]
    rfl

/-- The names of the metrics are different. -/
structure Distinct (generic : List Metric) : Prop where
  nodup : generic.Nodup
  running : ∀ g ∈ generic, ∀ h ∈ generic, g ≠ runningName h
  standard : ∀ m ∈ Update.standardMetrics, m ∉ generic ∧ ∀ g ∈ generic, m ≠ runningName g
  size : "SYSTEM_DISK_SIZE".toList ∉ generic ∧ ∀ g ∈ generic, "SYSTEM_DISK_SIZE".toList ≠ runningName g

theorem distinct_of_nodup (hnodup : (vmMetrics generic).Nodup) : Distinct generic := by
  unfold vmMetrics at hnodup
  obtain ⟨-, hflat, hdisjoint⟩ := List.nodup_append.mp hnodup
  obtain ⟨hpair, hapart⟩ := List.nodup_flatMap.mp hflat
  have hne : ∀ g ∈ generic, g ≠ runningName g := by
    intro g hg heq
    have hone := hpair g hg
    rw [List.nodup_cons, List.mem_singleton] at hone
    exact hone.1 heq
  have hlist : ∀ g ∈ generic, g ∈ generic.flatMap (fun m => [m, "RUNNING_".toList ++ m]) ∧
      runningName g ∈ generic.flatMap fun m => [m, "RUNNING_".toList ++ m] := fun g hg =>
    ⟨List.mem_flatMap.mpr ⟨g, hg, List.mem_cons_self⟩,
      List.mem_flatMap.mpr ⟨g, hg, List.mem_cons_of_mem _ List.mem_cons_self⟩⟩
  have hold : ∀ m, m ∈ ["VMS", "RUNNING_VMS", "CPU", "RUNNING_CPU", "MEMORY", "RUNNING_MEMORY",
      "PCI_DEV", "RUNNING_PCI_DEV", "PCI_NIC", "RUNNING_PCI_NIC", "SYSTEM_DISK_SIZE"].map
        String.toList → m ∉ generic ∧ ∀ g ∈ generic, m ≠ runningName g := fun m hm =>
    ⟨fun hg => hdisjoint m hm m (hlist m hg).1 rfl, fun g hg => hdisjoint m hm _ (hlist g hg).2⟩
  refine ⟨hapart.imp fun {a b} hab heq => ?_, fun g hg h hh => ?_, fun m hm => hold m ?_, hold _ ?_⟩
  · subst heq
    exact hab List.mem_cons_self List.mem_cons_self
  · by_cases hgh : g = h
    · subst hgh
      exact hne g hg
    · intro heq
      have hsymm : Std.Symm (Function.onFun List.Disjoint fun m => [m, "RUNNING_".toList ++ m]) :=
        ⟨fun _ _ hab => List.Disjoint.symm hab⟩
      have hboth := hapart.forall hg hh hgh
      exact hboth List.mem_cons_self (heq ▸ List.mem_cons_of_mem _ List.mem_cons_self)
  · exact List.mem_append_left ["SYSTEM_DISK_SIZE".toList] hm
  · decide

end Generic

/-! ## The template that is charged -/

namespace Update

variable {u : Update} {generic : List Metric}

theorem getNumber_congr {t t' : UserTemplate} {name name' : Text} (h : t name = t' name') :
    t.getNumber name = t'.getNumber name' := by
  unfold UserTemplate.getNumber
  rw [h]

theorem value_congr {t t' : UserTemplate} {name name' : Text} (h : t name = t' name') :
    t.value name = t'.value name' := by
  unfold UserTemplate.value
  rw [getNumber_congr h]

/-- **The loop over the metrics** replaces each of them by its change. -/
theorem foldl_deltaStep {l : List Metric} (hnodup : l.Nodup) (p : UserTemplate × Bool)
    (hp : ∀ g ∈ l, p.1 g = u.newTemplate g) :
    (∀ name, (l.foldl u.deltaStep p).1 name =
      if name ∈ l ∧ ((u.userTemplate.getNumber name).1 || (u.newTemplate.getNumber name).1) then
        [numberAttribute (u.change name)]
      else p.1 name) ∧
    ((l.foldl u.deltaStep p).2 = true ↔ p.2 = true ∨ ∃ g ∈ l, u.change g ≠ 0) := by
  induction l generalizing p with
  | nil => exact ⟨fun name => (if_neg fun h => absurd h.1 List.not_mem_nil).symm, by simp⟩
  | cons g l ih =>
    obtain ⟨hg, hl⟩ := List.nodup_cons.mp hnodup
    have hnew : p.1.getNumber g = u.newTemplate.getNumber g :=
      getNumber_congr (hp g List.mem_cons_self)
    have hcons : ∀ {name : Text}, name ≠ g → (name ∈ g :: l ↔ name ∈ l) := fun hne => by
      rw [List.mem_cons, or_iff_right hne]
    have hexistsCons : (∃ h ∈ g :: l, u.change h ≠ 0) ↔ u.change g ≠ 0 ∨ ∃ h ∈ l, u.change h ≠ 0 := by
      simp only [List.mem_cons, exists_eq_or_imp]
    by_cases hexists : ((u.userTemplate.getNumber g).1 || (u.newTemplate.getNumber g).1) = true
    · have hchange : u.change g =
          (u.newTemplate.getNumber g).2 - (u.userTemplate.getNumber g).2 := if_pos hexists
      have hstep : u.deltaStep p g =
          (Function.update p.1 g [numberAttribute (u.change g)], p.2 || (u.change g ≠ 0 : Bool)) := by
        unfold deltaStep
        dsimp only
        rw [hnew, if_pos hexists, hchange]
      have hkeep : ∀ h ∈ l, Function.update p.1 g [numberAttribute (u.change g)] h = u.newTemplate h := by
        intro h hh
        have hne : h ≠ g := fun heq => hg (heq ▸ hh)
        rw [Function.update_of_ne hne]
        exact hp h (List.mem_cons_of_mem g hh)
      obtain ⟨hname, hflag⟩ := ih hl (Function.update p.1 g [numberAttribute (u.change g)],
        p.2 || (u.change g ≠ 0 : Bool)) hkeep
      rw [List.foldl_cons, hstep]
      refine ⟨fun name => ?_, ?_⟩
      · rw [hname]
        by_cases heq : name = g
        · subst heq
          rw [if_neg fun h => hg h.1, if_pos ⟨List.mem_cons_self, hexists⟩]
          exact Function.update_self _ _ _
        · dsimp only
          rw [Function.update_of_ne heq]
          exact if_congr (and_congr_left fun _ => (hcons heq).symm) rfl rfl
      · rw [hflag, hexistsCons]
        dsimp only
        rw [Bool.or_eq_true, decide_eq_true_eq, or_assoc]
    · have hchange : u.change g = 0 := if_neg hexists
      have hstep : u.deltaStep p g = p := by
        unfold deltaStep
        dsimp only
        rw [hnew, if_neg hexists]
      obtain ⟨hname, hflag⟩ := ih hl p fun h hh => hp h (List.mem_cons_of_mem g hh)
      rw [List.foldl_cons, hstep]
      refine ⟨fun name => ?_, ?_⟩
      · rw [hname]
        by_cases heq : name = g
        · subst heq
          rw [if_neg fun h => hexists h.2, if_neg fun h => hexists h.2]
        · exact if_congr (and_congr_left fun _ => (hcons heq).symm) rfl rfl
      · rw [hflag, hexistsCons, or_iff_right (not_not.mpr hchange)]

theorem deltas_eq (hnodup : generic.Nodup) : (u.deltas generic).1 = u.changed generic := by
  funext name
  exact (foldl_deltaStep hnodup _ fun _ _ => rfl).1 name

theorem doQuotas_iff (hnodup : generic.Nodup) : (u.deltas generic).2 = true ↔ u.Changes generic := by
  have hflag := (foldl_deltaStep (u := u) hnodup (u.newTemplate, false) fun _ _ => rfl).2
  rw [or_iff_right Bool.false_ne_true] at hflag
  exact hflag

/-- The first attribute of a name, if it is a single one. -/
def firstSingle (t : UserTemplate) (name : Text) : List UserAttribute :=
  match t name with
  | .single number int yes :: _ => [.single number int yes]
  | _ => []

theorem addRunning_apply (t : UserTemplate) (g name : Metric) :
    addRunning t g name = if name = runningName g then t name ++ firstSingle t g else t name := by
  unfold addRunning firstSingle
  cases t g with
  | nil => rw [List.append_nil, ite_self]
  | cons a rest =>
    cases a with
    | vector v => rw [List.append_nil, ite_self]
    | single number int yes =>
      dsimp only
      rw [Function.update_apply]
      by_cases hname : name = runningName g
      · rw [if_pos hname, if_pos hname, hname]
      · rw [if_neg hname, if_neg hname]

/-- **The running parts** are added behind the attributes that the user gave. -/
theorem foldl_addRunning {l : List Metric} (hnodup : l.Nodup)
    (hne : ∀ g ∈ l, ∀ h ∈ l, g ≠ runningName h) (t : UserTemplate) :
    (∀ g ∈ l, addRunningQuotaGeneric l t (runningName g) = t (runningName g) ++ firstSingle t g) ∧
      ∀ name, (∀ g ∈ l, name ≠ runningName g) → addRunningQuotaGeneric l t name = t name := by
  unfold addRunningQuotaGeneric
  induction l generalizing t with
  | nil => exact ⟨fun g hg => absurd hg List.not_mem_nil, fun _ _ => rfl⟩
  | cons g l ih =>
    obtain ⟨hg, hl⟩ := List.nodup_cons.mp hnodup
    have hstep := addRunning_apply t g
    rw [List.foldl_cons]
    generalize addRunning t g = t' at hstep ⊢
    obtain ⟨hmem, hother⟩ := ih hl (fun a ha b hb => hne a (List.mem_cons_of_mem g ha) b
      (List.mem_cons_of_mem g hb)) t'
    have hfresh : ∀ a ∈ l, runningName g ≠ runningName a := by
      intro a ha heq
      rw [runningName_injective heq] at hg
      exact hg ha
    refine ⟨fun h hh => ?_, fun name hname => ?_⟩
    · rcases List.mem_cons.mp hh with rfl | hh'
      · rw [hother _ hfresh, hstep, if_pos rfl]
      · have hsame : t' h = t h := by
          rw [hstep, if_neg (hne h hh g List.mem_cons_self)]
        have hrun : t' (runningName h) = t (runningName h) := by
          rw [hstep, if_neg (hfresh h hh').symm]
        rw [hmem h hh', hrun]
        unfold firstSingle
        rw [hsame]
    · rw [hother name fun a ha => hname a (List.mem_cons_of_mem g ha), hstep,
        if_neg (hname g List.mem_cons_self)]

/-- The attributes of the template that is charged. -/
theorem charged_attributes (hdistinct : Distinct generic) :
    ∃ t : UserTemplate, u.charge generic = t.quotaTemplate ∧
      (∀ g ∈ generic, t (runningName g) = u.changed generic (runningName g) ++
        if u.isRunningQuota then firstSingle (u.changed generic) g else []) ∧
      ∀ name, (∀ g ∈ generic, name ≠ runningName g) → t name = u.changed generic name := by
  unfold charge
  dsimp only
  rw [deltas_eq hdistinct.nodup]
  refine ⟨_, rfl, ?_⟩
  cases u.isRunningQuota with
  | true => exact foldl_addRunning hdistinct.nodup hdistinct.running (u.changed generic)
  | false => exact ⟨fun g _ => (List.append_nil _).symm, fun _ _ => rfl⟩

/-- A name that does not begin like a running part. -/
theorem ne_runningName {name : Text} (h : "RUNNING_".toList.isPrefixOf name = false) (g : Metric) :
    name ≠ runningName g := by
  rintro rfl
  have hyes : "RUNNING_".toList.isPrefixOf (runningName g) = true :=
    List.isPrefixOf_iff_prefix.mpr (List.prefix_append _ _)
  exact absurd (hyes.symm.trans h) (by decide)

/-- What the check reads besides the metrics. -/
theorem charge_fields (hdistinct : Distinct generic) :
    (u.charge generic).clusterId = (u.changed generic).quotaTemplate.clusterId ∧
      (u.charge generic).skipGlobalQuota = (u.changed generic).quotaTemplate.skipGlobalQuota ∧
      (u.charge generic).nics = (u.changed generic).quotaTemplate.nics ∧
      (u.charge generic).disks = (u.changed generic).quotaTemplate.disks ∧
      (u.charge generic).snapshots = (u.changed generic).quotaTemplate.snapshots := by
  obtain ⟨t, heq, -, hother⟩ := charged_attributes (u := u) hdistinct
  have hsame : ∀ name, "RUNNING_".toList.isPrefixOf name = false →
      t name = u.changed generic name := fun name hname =>
    hother name fun g _ => ne_runningName hname g
  have hvectors : ∀ name, "RUNNING_".toList.isPrefixOf name = false →
      t.vectors name = (u.changed generic).vectors name := by
    intro name hname
    unfold UserTemplate.vectors
    rw [hsame name hname]
  rw [heq]
  unfold UserTemplate.quotaTemplate
  refine ⟨?_, ?_, ?_, ?_, ?_⟩
  · dsimp only
    rw [hsame "CLUSTER_ID".toList (by decide)]
  · dsimp only
    rw [hsame "SKIP_GLOBAL_QUOTA".toList (by decide)]
  · dsimp only
    rw [hvectors "NIC".toList (by decide), hvectors "PCI".toList (by decide),
      hvectors "NIC_ALIAS".toList (by decide)]
  · dsimp only
    rw [hvectors "DISK".toList (by decide)]
  · dsimp only
    rw [hvectors "SNAPSHOT".toList (by decide)]

/-! ## The amounts -/

/-- What the check reads for a metric. -/
theorem amount_vmRequest (C : QuotasConf) (t : UserTemplate) {m : Metric} (hm : m ∈ vmMetrics C.generic)
    (hsize : m ≠ "SYSTEM_DISK_SIZE".toList) :
    (vmRequest C t.quotaTemplate).amount m = t.value m := by
  unfold Usage.amount vmRequest
  rw [if_neg hsize, if_pos hm]
  unfold UserTemplate.quotaTemplate UserTemplate.value
  dsimp only
  split_ifs
  · rfl
  · rfl

theorem value_changed {g : Metric} (hg : g ∈ generic) : (u.changed generic).value g = u.change g := by
  by_cases hexists : ((u.userTemplate.getNumber g).1 || (u.newTemplate.getNumber g).1) = true
  · have hattribute : u.changed generic g = [numberAttribute (u.change g)] := if_pos ⟨hg, hexists⟩
    unfold UserTemplate.value UserTemplate.getNumber
    rw [hattribute]
    rfl
  · have hattribute : u.changed generic g = u.newTemplate g := if_neg fun h => hexists h.2
    have hinvalid : (u.newTemplate.getNumber g).1 = false := by
      rw [Bool.not_eq_true, Bool.or_eq_false_iff] at hexists
      exact hexists.2
    have hchange : u.change g = 0 := if_neg hexists
    rw [value_congr hattribute, UserTemplate.value, hinvalid, if_neg Bool.false_ne_true, hchange]

theorem value_firstSingle {t t' : UserTemplate} {name name' : Text} (h : t' name' = firstSingle t name) :
    t'.value name' = t.value name := by
  have hnumber : t'.getNumber name' = t.getNumber name := by
    unfold UserTemplate.getNumber
    rw [h]
    unfold firstSingle
    cases t name with
    | nil => rfl
    | cons a rest =>
      cases a with
      | vector v => rfl
      | single number int yes => rfl
  unfold UserTemplate.value
  rw [hnumber]

/-- **The amounts that are charged**: the numbers of the user template, the changes of the generic metrics,
and for a running part what the user gave or the change. -/
theorem amount_charge (C : QuotasConf) (u : Update) (hdistinct : Distinct C.generic) :
    (∀ m ∈ standardMetrics, (vmRequest C (u.charge C.generic)).amount m = u.newTemplate.value m) ∧
    (vmRequest C (u.charge C.generic)).amount "SYSTEM_DISK_SIZE".toList =
      ((u.changed C.generic).quotaTemplate.systemDsSize +
        (u.changed C.generic).quotaTemplate.getSnapshotsSystemSize : ℤ) ∧
    (∀ g ∈ C.generic, (vmRequest C (u.charge C.generic)).amount g = u.change g) ∧
    ∀ g ∈ C.generic, (vmRequest C (u.charge C.generic)).amount (runningName g) =
      if (u.newTemplate (runningName g)).isEmpty then
        if u.isRunningQuota then u.change g else 0
      else u.newTemplate.value (runningName g) := by
  obtain ⟨-, -, -, hdisks, hsnapshots⟩ := charge_fields (u := u) hdistinct
  obtain ⟨t, heq, hrunning, hother⟩ := charged_attributes (u := u) hdistinct
  have hkeep : ∀ name, name ∉ C.generic → u.changed C.generic name = u.newTemplate name :=
    fun name hname => if_neg fun h => hname h.1
  refine ⟨fun m hm => ?_, ?_, fun g hg => ?_, fun g hg => ?_⟩
  · obtain ⟨hno, hne⟩ := hdistinct.standard m hm
    have hsize : m ≠ "SYSTEM_DISK_SIZE".toList := by
      rintro rfl
      exact absurd hm (by decide)
    rw [heq, amount_vmRequest C t (mem_vmMetrics.mpr (Or.inl hm)) hsize]
    exact value_congr ((hother m hne).trans (hkeep m hno))
  · unfold Usage.amount vmRequest QuotaTemplate.systemDsSize QuotaTemplate.getSnapshotsSystemSize
    rw [if_pos rfl, hdisks, hsnapshots]
    rfl
  · have hsize : g ≠ "SYSTEM_DISK_SIZE".toList := fun h => hdistinct.size.1 (h ▸ hg)
    rw [heq, amount_vmRequest C t (mem_vmMetrics.mpr (Or.inr (Or.inr ⟨g, hg, Or.inl rfl⟩))) hsize,
      value_congr (hother g (hdistinct.running g hg)), value_changed hg]
  · have hsize : runningName g ≠ "SYSTEM_DISK_SIZE".toList := fun h => hdistinct.size.2 g hg h.symm
    have hno : runningName g ∉ C.generic := fun h => hdistinct.running _ h g hg rfl
    have hattributes := hrunning g hg
    rw [hkeep _ hno] at hattributes
    rw [heq, amount_vmRequest C t (mem_vmMetrics.mpr (Or.inr (Or.inr ⟨g, hg, Or.inr rfl⟩))) hsize]
    cases huser : u.newTemplate (runningName g) with
    | nil =>
      rw [huser, List.nil_append] at hattributes
      rw [List.isEmpty_nil, if_pos rfl]
      split_ifs at hattributes ⊢
      · rw [value_firstSingle hattributes, value_changed hg]
      · unfold UserTemplate.value UserTemplate.getNumber
        rw [hattributes]
        rfl
    | cons a rest =>
      rw [List.isEmpty_cons, if_neg Bool.false_ne_true]
      rw [huser, List.cons_append] at hattributes
      unfold UserTemplate.value UserTemplate.getNumber
      rw [hattributes, huser]
      cases a with
      | single number int yes => rfl
      | vector v => rfl

/-- The amounts of an update, metric by metric. -/
theorem amounts_eq (hdistinct : Distinct generic) :
    (∀ m ∈ standardMetrics, u.amounts generic m = 0) ∧
    u.amounts generic "SYSTEM_DISK_SIZE".toList = 0 ∧
    (∀ g ∈ generic, u.amounts generic g = u.delta g) ∧
    ∀ g ∈ generic, u.amounts generic (runningName g) = if u.isRunningQuota then u.delta g else 0 := by
  have hzero : ∀ m, m ∉ generic → (∀ g ∈ generic, m ≠ runningName g) → u.amounts generic m = 0 := by
    intro m hno hne
    have hfind : generic.find? (fun g => runningName g = m) = none := by
      rw [List.find?_eq_none]
      intro g hg heq
      exact hne g hg (of_decide_eq_true heq).symm
    unfold amounts
    rw [if_neg hno, hfind]
  refine ⟨fun m hm => hzero m (hdistinct.standard m hm).1 (hdistinct.standard m hm).2,
    hzero _ hdistinct.size.1 hdistinct.size.2, fun g hg => if_pos hg, fun g hg => ?_⟩
  have hno : runningName g ∉ generic := fun h => hdistinct.running _ h g hg rfl
  have hfind : generic.find? (fun h => runningName h = runningName g) = some g := by
    cases hresult : generic.find? (fun h => runningName h = runningName g) with
    | none =>
      rw [List.find?_eq_none] at hresult
      exact absurd (decide_eq_true rfl) (hresult g hg)
    | some h =>
      have hsame : runningName h = runningName g := by simpa using List.find?_some hresult
      rw [runningName_injective hsame]
  unfold amounts
  rw [if_neg hno, hfind]

/-- **The template charges the amounts of the update** exactly when it has nothing else. -/
theorem amount_eq_iff_plain (C : QuotasConf) (u : Update) :
    (∀ m ∈ vmMetrics C.generic, (vmRequest C (u.charge C.generic)).amount m = u.amounts C.generic m) ↔
      u.Plain C.generic := by
  have hdistinct := distinct_of_nodup C.nodup
  obtain ⟨hstandard, hsize, hgeneric, hrunning⟩ := amount_charge C u hdistinct
  obtain ⟨hstandard', hsize', hgeneric', hrunning'⟩ := amounts_eq (u := u) hdistinct
  constructor
  · intro h
    refine ⟨fun m hm => ?_, ?_, fun g hg => ?_, fun g hg huser => ?_⟩
    · rw [← hstandard m hm, h m (mem_vmMetrics.mpr (Or.inl hm)), hstandard' m hm]
    · have hzero := h _ (mem_vmMetrics.mpr (Or.inr (Or.inl rfl)))
      rw [hsize, hsize'] at hzero
      exact_mod_cast hzero
    · rw [← hgeneric g hg, h g (mem_vmMetrics.mpr (Or.inr (Or.inr ⟨g, hg, Or.inl rfl⟩))), hgeneric' g hg]
    · have hone := h _ (mem_vmMetrics.mpr (Or.inr (Or.inr ⟨g, hg, Or.inr rfl⟩)))
      rw [hrunning g hg, hrunning' g hg, if_neg fun hempty => huser (List.isEmpty_iff.mp hempty)] at hone
      exact hone
  · rintro ⟨hplain, hdisks, hchange, huser⟩ m hm
    rcases mem_vmMetrics.mp hm with hmem | rfl | ⟨g, hg, rfl | rfl⟩
    · rw [hstandard m hmem, hstandard' m hmem, hplain m hmem]
    · rw [hsize, hsize', hdisks, Int.cast_zero]
    · rw [hgeneric m hg, hgeneric' m hg, hchange m hg]
    · rw [hrunning g hg, hrunning' g hg]
      split_ifs with hempty hcounts hcounts
      · exact hchange g hg
      · rfl
      · rw [huser g hg fun h => hempty (List.isEmpty_iff.mpr h), if_pos hcounts]
      · rw [huser g hg fun h => hempty (List.isEmpty_iff.mpr h), if_neg hcounts]

/-- An update without amounts. -/
theorem amounts_zero_iff (hdistinct : Distinct generic) :
    (∀ m ∈ vmMetrics generic, 0 = u.amounts generic m) ↔ ∀ g ∈ generic, u.delta g = 0 := by
  obtain ⟨hstandard, hsize, hgeneric, hrunning⟩ := amounts_eq (u := u) hdistinct
  constructor
  · intro h g hg
    rw [← hgeneric g hg, ← h g (mem_vmMetrics.mpr (Or.inr (Or.inr ⟨g, hg, Or.inl rfl⟩)))]
  · intro h m hm
    rcases mem_vmMetrics.mp hm with hmem | rfl | ⟨g, hg, rfl | rfl⟩
    · exact (hstandard m hmem).symm
    · exact hsize.symm
    · rw [hgeneric m hg, h m hg]
    · rw [hrunning g hg, h g hg, ite_self]

end Update

/-! ## When an update charges exactly its deltas -/

namespace Update

variable {C : QuotasConf} {defaults : Account → Quotas} {u : Update} {a : Account} {s s' : Store}
  {q q' : Quotas} {δ : Quotas → Text → Metric → ℚ} {g : Bool}

/-- What an update charges to the quotas of virtual machines of an account. -/
def taken (C : QuotasConf) (u : Update) (q : Quotas) (id : Text) (m : Metric) : ℚ :=
  if u.Changes C.generic then cost C (u.charge C.generic) q id m else 0

/-- An account whose networks and images are not charged. -/
theorem usage_of_track (h : Track C q q' [] [] [] (δ q) g) (n : QuotaName) (id : Text) {m : Metric}
    (hm : m ∈ (C.kind n).metrics) :
    Quotas.usage C q' n id m = Quotas.usage C q n id m + if n = .vm then δ q id m else 0 := by
  obtain ⟨defaults', l, hcharge, hnetwork⟩ := h.network
  have hl : q .network = l := (Prod.mk.inj hcharge).2
  cases n with
  | vm =>
    rw [if_pos rfl]
    exact h.vm.usage id m hm
  | datastore =>
    rw [if_neg (by decide), add_zero, Quotas.usage, Quotas.usage, h.datastore]
  | network =>
    rw [if_neg (by decide), add_zero, Quotas.usage, Quotas.usage, hnetwork, hl]
    rfl
  | image =>
    rw [if_neg (by decide), add_zero, Quotas.usage, Quotas.usage, h.image]
    rfl

/-- **What an update has done** to an account: its charge when it succeeds, and nothing or the release of
the networks and the images of the template when it fails. -/
theorem at_update (hsound : ∀ q, s a = some q → Sound C q) :
    (∀ s', u.update C defaults s = .ok s' →
      At u.owner a s s' fun q q' => ∃ g, Sound C q ∧ Track C q q' [] [] [] (u.taken C q) g) ∧
    ∀ e s', u.update C defaults s = .error (e, s') →
      At u.owner a s s' fun q q' => ∃ g, Sound C q ∧
        if e = .template ∧ u.Changes C.generic then
          Track C q q' [] (networkCharges false (u.charge C.generic)) (imageCharges (u.charge C.generic))
            (fun _ _ => 0) g
        else Track C q q' [] [] [] (fun _ _ => 0) g := by
  have hdistinct := distinct_of_nodup C.nodup
  have hflag := doQuotas_iff (u := u) hdistinct.nodup
  have hstart : At u.owner a s s (Tracks C [] [] [] (fun _ _ _ => 0) false) := by
    refine (Deploy.at_refl u.owner hsound).mono ?_
    rintro _ q ⟨hq, rfl⟩
    exact ⟨hq, Track.refl hq⟩
  unfold update
  by_cases hchanges : u.Changes C.generic
  · rw [if_pos (hflag.mpr hchanges)]
    cases hauth : quotaAuthorization C defaults u.owner (.vm, u.charge C.generic) s with
    | mk accepted s₁ =>
      cases accepted with
      | false =>
        refine ⟨fun s' h => absurd h (by simp), fun e s' h => ?_⟩
        obtain ⟨rfl, rfl⟩ := Prod.mk.inj (Except.error.inj h)
        refine (hstart.vmReject hauth fun hno => absurd hno Bool.false_ne_true).mono
          fun q q' hP => ⟨false, hP.1, ?_⟩
        rw [if_neg fun h => absurd h.1 (by simp)]
        exact hP.2
      | true =>
        have hcharged := hstart.vmCharge hauth
        dsimp only
        split_ifs with hwrites
        · refine ⟨fun s' h => ?_, fun e s' h => absurd h (by simp)⟩
          rw [← Except.ok.inj h]
          refine hcharged.mono fun q q' hP => ⟨_, hP.1, hP.2.congr fun id m => ?_⟩
          rw [taken, if_pos hchanges]
          exact (zero_add _).symm
        · refine ⟨fun s' h => absurd h (by simp), fun e s' h => ?_⟩
          obtain ⟨rfl, rfl⟩ := Prod.mk.inj (Except.error.inj h)
          refine hcharged.map (fun q q' hP => ?_)
            (quotaRollback_apply u.owner (.virtualMachine, u.charge C.generic) s₁ a)
          have hreleased := hP.2.releaseAll (t := u.charge C.generic) hP.1.clusters
            fun hno => by rw [hno]; rfl
          have hzero : ∀ id m, (0 : ℚ) = 0 + cost C (u.charge C.generic) q id m -
              amountOf (vmCharges C (q .vm) (u.charge C.generic)) id m := by
            intro id m
            rw [zero_add]
            exact (sub_self _).symm
          exact ⟨_, hP.1, (if_pos ⟨rfl, hchanges⟩).mpr (hreleased.congr hzero)⟩
  · rw [if_neg fun h => hchanges (hflag.mp h)]
    split_ifs
    · refine ⟨fun s' h => ?_, fun e s' h => absurd h (by simp)⟩
      rw [← Except.ok.inj h]
      refine hstart.mono fun q q' hP => ⟨false, hP.1, hP.2.congr fun id m => ?_⟩
      rw [taken, if_neg hchanges]
    · refine ⟨fun s' h => absurd h (by simp), fun e s' h => ?_⟩
      obtain ⟨-, rfl⟩ := Prod.mk.inj (Except.error.inj h)
      refine hstart.mono fun q q' hP => ⟨false, hP.1, ?_⟩
      rw [if_neg fun h => hchanges h.2]
      exact hP.2

/-- The global entry. -/
theorem taken_nil_iff (C : QuotasConf) (u : Update) (q : Quotas) :
    (∀ m ∈ (C.kind .vm).metrics, u.taken C q [] m = u.amounts C.generic m) ↔
      u.GlobalRight C.generic := by
  have hdistinct := distinct_of_nodup C.nodup
  have hskip := (charge_fields (u := u) hdistinct).2.1
  unfold GlobalRight taken cost
  by_cases hchanges : u.Changes C.generic
  · cases hglobal : (u.changed C.generic).quotaTemplate.skipGlobalQuota with
    | true =>
      rw [if_neg fun h => absurd h.2 (by decide), ← amounts_zero_iff hdistinct]
      refine forall₂_congr fun m _ => ?_
      rw [if_pos hchanges, amountOf_vmCharges_nil, hskip, hglobal, if_pos rfl]
    | false =>
      rw [if_pos ⟨hchanges, rfl⟩, ← amount_eq_iff_plain]
      refine forall₂_congr fun m _ => ?_
      rw [if_pos hchanges, amountOf_vmCharges_nil, hskip, hglobal, if_neg Bool.false_ne_true]
  · rw [if_neg fun h => hchanges h.1, ← amounts_zero_iff hdistinct]
    refine forall₂_congr fun m _ => ?_
    rw [if_neg hchanges]

/-- What is charged to an entry of clusters. -/
theorem taken_of_ne_nil (C : QuotasConf) (u : Update) (q : Quotas) {id : Text} (hid : id ≠ []) (m : Metric) :
    u.taken C q id m =
      if u.Changes C.generic ∧ getQuotaId (u.changed C.generic).quotaTemplate (q .vm) = some id then
        (vmRequest C (u.charge C.generic)).amount m
      else 0 := by
  have hcluster := (charge_fields (u := u) (distinct_of_nodup C.nodup)).1
  have hentry : getQuotaId (u.charge C.generic) (q .vm) =
      getQuotaId (u.changed C.generic).quotaTemplate (q .vm) := by
    unfold getQuotaId
    rw [hcluster]
  unfold taken cost
  by_cases hchanges : u.Changes C.generic
  · have hno : ¬ (id = [] ∧ (u.charge C.generic).skipGlobalQuota = false) := fun h => hid h.1
    rw [if_pos hchanges, amountOf_vmCharges_eq, hentry, if_neg hno, add_zero]
    exact if_congr (and_iff_right hchanges).symm rfl rfl
  · rw [if_neg hchanges, if_neg fun h => hchanges h.1]

/-- The entries of clusters. -/
theorem taken_cluster_iff (C : QuotasConf) (u : Update) (q : Quotas) :
    (∀ id, id ≠ [] → ∀ m ∈ (C.kind .vm).metrics,
      u.taken C q id m = if u.clusterEntry q = some id then u.amounts C.generic m else 0) ↔
      u.ClusterRight C.generic q := by
  have hdistinct := distinct_of_nodup C.nodup
  have hcharge := amount_charge C u hdistinct
  unfold ClusterRight
  dsimp only
  by_cases hsame : u.Changes C.generic ∧
      getQuotaId (u.changed C.generic).quotaTemplate (q .vm) = u.clusterEntry q
  · rw [if_pos hsame, ← amount_eq_iff_plain C u]
    cases hentry : u.clusterEntry q with
    | none =>
      refine iff_of_true (fun id hid m _ => ?_) (Or.inl rfl)
      rw [taken_of_ne_nil C u q hid, hsame.2, hentry, if_neg (by simp), if_neg (by simp)]
    | some entry =>
      have hne : entry ≠ [] := ne_nil_of_getQuotaId hentry
      constructor
      · intro h
        refine Or.inr fun m hm => ?_
        have hone := h entry hne m hm
        rw [taken_of_ne_nil C u q hne, if_pos ⟨hsame.1, hsame.2.trans hentry⟩, if_pos rfl] at hone
        exact hone
      · intro h id hid m hm
        rw [taken_of_ne_nil C u q hid, hsame.2, hentry]
        by_cases heq : some entry = some id
        · rw [if_pos ⟨hsame.1, heq⟩, if_pos heq]
          exact h.resolve_left (by simp) m hm
        · rw [if_neg fun h => heq h.2, if_neg heq]
  · rw [if_neg hsame, ← amounts_zero_iff hdistinct]
    constructor
    · intro h
      refine ⟨fun hchanges => ?_, ?_⟩
      · -- A metric that changes would be charged to the entry of another cluster.
        cases hentry : getQuotaId (u.changed C.generic).quotaTemplate (q .vm) with
        | none => rfl
        | some entry =>
          obtain ⟨g, hg, hne⟩ := hchanges
          have hone := h entry (ne_nil_of_getQuotaId hentry) g
            (mem_vmMetrics.mpr (Or.inr (Or.inr ⟨g, hg, Or.inl rfl⟩)))
          rw [taken_of_ne_nil C u q (ne_nil_of_getQuotaId hentry), if_pos ⟨⟨g, hg, hne⟩, hentry⟩,
            hcharge.2.2.1 g hg, if_neg fun heq => hsame ⟨⟨g, hg, hne⟩, hentry.trans heq.symm⟩] at hone
          exact absurd hone hne
      · cases hentry : u.clusterEntry q with
        | none => exact Or.inl rfl
        | some entry =>
          refine Or.inr fun m hm => ?_
          have hid := ne_nil_of_getQuotaId hentry
          have hone := h entry hid m hm
          rw [taken_of_ne_nil C u q hid, if_neg fun heq => hsame ⟨heq.1, heq.2.trans hentry.symm⟩,
            if_pos hentry] at hone
          exact hone
    · rintro ⟨hnone, hzero⟩ id hid m hm
      rw [taken_of_ne_nil C u q hid, if_neg fun h => absurd (hnone h.1) (by rw [h.2]; simp)]
      split_ifs with hentry
      · exact hzero.resolve_left (by rw [hentry]; simp) m hm
      · rfl

end Update

namespace Update

section Result

variable {C : QuotasConf} {u : Update} {s s' : Store}

/-- The usage of the accounts after an update that succeeds. -/
theorem charges_iff {entries : QuotaName → Text → Prop}
    (h : ∀ a, At u.owner a s s' fun q q' => ∃ g, Sound C q ∧ Track C q q' [] [] [] (u.taken C q) g) :
    u.Charges C entries s s' ↔ ∀ a q, u.owner.Uses a → s a = some q →
      ∀ n id m, m ∈ (C.kind n).metrics → entries n id →
        (if n = .vm then u.taken C q id m else 0) = u.share C a (some q) n id m := by
  constructor
  · intro hcharges a q ha hq n id m hm hentry
    obtain ⟨q', hq', g, -, htrack⟩ := (h a).used ha q hq
    have hone := hcharges a n id m hm hentry
    rw [hq, hq'] at hone
    change Quotas.usage C q' n id m = Quotas.usage C q n id m + _ at hone
    rw [usage_of_track htrack n id hm] at hone
    exact add_left_cancel hone
  · intro hall a n id m hm hentry
    by_cases hused : u.owner.Uses a ∧ ∃ q, s a = some q
    · obtain ⟨ha, q, hq⟩ := hused
      obtain ⟨q', hq', g, -, htrack⟩ := (h a).used ha q hq
      rw [hq, hq', ← hall a q ha hq n id m hm hentry]
      exact usage_of_track htrack n id hm
    · have hno : u.owner.Uses a → s a = none := by
        intro ha
        cases hq : s a with
        | none => rfl
        | some q => exact absurd ⟨ha, q, hq⟩ hused
      have hshare : u.share C a (s a) n id m = 0 := by
        unfold share
        split
        · rfl
        · rename_i q hq
          exact if_neg fun h => hused ⟨h.2.1, q, hq⟩
      rw [(h a).same hno, hshare, add_zero]

end Result

end Update

/-! ## Updates of the user template -/

section Requests

open Update

/-- A configuration with one generic metric. -/
def gpuConf : QuotasConf := ⟨false, ["GPU".toList], by decide⟩

/-- A virtual machine that runs, without a cluster and with `GPU` 1, gets a new text. -/
def gpuUpdate (text : UserTemplate) (writes : Bool) : Update where
  owner := ⟨2, 100⟩
  isRunningQuota := true
  cid := none
  userTemplate := Function.update emptyUser "GPU".toList [numberAttribute 1]
  text := Function.update text "GPU".toList [numberAttribute 3]
  append := true
  writes := writes
where
  emptyUser : UserTemplate := fun _ => []

/-- No other attributes, a number of CPUs, and an interface on the network 5. -/
def noText : UserTemplate := fun _ => []

def cpuText : UserTemplate := Function.update noText "CPU".toList [numberAttribute 8]

def nicText : UserTemplate := Function.update noText "NIC".toList
  [.vector ⟨false, true, ⟨"5".toList, false, false⟩, ⟨[], none, none, [], none, [], []⟩, none⟩]

theorem error_update {text : UserTemplate} (htext : text = noText ∨ text = nicText) :
    errorOf ((gpuUpdate text false).update gpuConf (fun _ _ => []) (storeOf leased)) = some .template := by
  rcases htext with rfl | rfl
  · decide +kernel
  · decide +kernel

theorem ok_update {text : UserTemplate} (htext : text = noText ∨ text = cpuText) :
    (gpuUpdate text true).update gpuConf (fun _ _ => []) (storeOf leased) =
      .ok (storeAfter ((gpuUpdate text true).update gpuConf (fun _ _ => []) (storeOf leased))) := by
  have hnone : errorOf ((gpuUpdate text true).update gpuConf (fun _ _ => []) (storeOf leased)) = none := by
    rcases htext with rfl | rfl
    · decide +kernel
    · decide +kernel
  cases hupdate : (gpuUpdate text true).update gpuConf (fun _ _ => []) (storeOf leased) with
  | ok s => rfl
  | error p => rw [hupdate] at hnone; exact absurd hnone (by simp [errorOf])

/-- A text with nothing but the generic metric. -/
theorem plain_noText : (gpuUpdate noText true).Plain gpuConf.generic :=
  ⟨by decide +kernel, by decide +kernel, by decide +kernel, by decide +kernel⟩

end Requests

end UpdateQuota
