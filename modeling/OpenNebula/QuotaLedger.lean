/-
# The quota ledger

Over any sequence of accepted checks, deletions of accepted requests and changes of limits, the usage
of an entry is the sum of the accepted requests that are not deleted (`usage_eq_accepted`).  An entry
is removed only when it has no usage and no limit.  The cluster quotas of virtual machines are the
exception: they are removed with their usage when they have no limit, and their usage is computed
again from the virtual machines of the clusters when they are made.
-/
import OpenNebula.ClusterQuota
import OpenNebula.Transition

open KeyedList ClusterQuota TextList

/-! ## Deletions and limits of all the quotas -/

namespace Quotas

variable {C : QuotasConf} {q : Quotas} {t : QuotaTemplate} {n : QuotaName}

theorem networkDels_filter (isVRouter : Bool) (t : QuotaTemplate) :
    (networkDels isVRouter t).filter (fun c => !c.1.isEmpty) = networkCharges isVRouter t := by
  unfold networkDels networkCharges
  rw [List.filter_map, List.filter_filter]
  congr 1
  refine List.filter_congr fun nic _ => ?_
  dsimp only [Function.comp_apply]
  cases nic.networkId.isEmpty <;> cases nic.isAuto <;> cases nic.usesLease isVRouter <;> rfl

theorem imageDels_filter (t : QuotaTemplate) :
    (imageDels t).filter (fun c => !c.1.isEmpty) = imageCharges t := by
  unfold imageDels imageCharges
  rw [List.filter_map]
  rfl

theorem isValid_nil (h : n ≠ .vm) : (C.kind n).isValid [] = false := by
  cases n with
  | vm => exact absurd rfl h
  | datastore | network | image => rfl

theorem delOf_of_ne {l : List (Text × Usage)} {n' : QuotaName} (h : n' ≠ n) :
    delOf C n l q n' = q n' :=
  Function.update_of_ne h _ _

theorem delOf_self (l : List (Text × Usage)) : delOf C n l q n = (C.kind n).delList l (q n) :=
  Function.update_self _ _ _

/-- The networks and the images of a deletion are those of the check. -/
theorem delOf_filter (h : n ≠ .vm) {l l' : List (Text × Usage)}
    (hl : l.filter (fun c => !c.1.isEmpty) = l') :
    delOf C n l q n = (C.kind n).delList l' (q n) := by
  rw [delOf_self, QuotaKind.delList_filter (isValid_nil h), hl]

/-- **A deletion is a loop over what the check charges**, in each of the four quotas. -/
theorem quotaDel_apply (type : QuotaType)
    (hds : ∀ c ∈ chargesOf C q type t .datastore, (C.kind .datastore).isValid c.1 = true)
    (n : QuotaName) :
    quotaDel C type t q n = (C.kind n).delList (chargesOf C q type t n) (q n) := by
  cases type with
  | datastore =>
    unfold quotaDel datastoreDel
    dsimp only
    unfold chargesOf at hds ⊢
    dsimp only at hds ⊢
    cases hsize : t.value "SIZE".toList with
    | none =>
      rw [ite_self]
      cases n <;> rfl
    | some size =>
      rw [hsize] at hds
      have hne : t.datastore ≠ [] := by
        intro hnil
        have hvalid := hds _ List.mem_cons_self
        rw [hnil, isValid_nil (by decide)] at hvalid
        exact Bool.false_ne_true hvalid
      rw [if_neg hne]
      cases n with
      | datastore => exact delOf_self _
      | network | image | vm => exact delOf_of_ne (by decide)
  | network =>
    cases n with
    | network => exact delOf_filter (by decide) (networkDels_filter false t)
    | datastore | image | vm => exact delOf_of_ne (by decide)
  | virtualRouter =>
    cases n with
    | network => exact delOf_filter (by decide) (networkDels_filter true t)
    | datastore | image | vm => exact delOf_of_ne (by decide)
  | image =>
    cases n with
    | image => exact delOf_filter (by decide) (imageDels_filter t)
    | datastore | network | vm => exact delOf_of_ne (by decide)
  | vm =>
    unfold quotaDel vmDel
    dsimp only
    cases n with
    | vm => exact delOf_self _
    | datastore | network | image => exact delOf_of_ne (by decide)
  | virtualMachine =>
    unfold quotaDel vmDel
    dsimp only
    cases n with
    | datastore =>
      rw [delOf_of_ne (by decide), delOf_of_ne (by decide), delOf_of_ne (by decide)]
      rfl
    | network =>
      rw [delOf_of_ne (by decide), delOf_of_ne (by decide)]
      exact delOf_filter (by decide) (networkDels_filter false t)
    | vm =>
      rw [delOf_of_ne (by decide), delOf_self, delOf_of_ne (by decide)]
      rfl
    | image =>
      rw [delOf_filter (by decide) (imageDels_filter t), delOf_of_ne (by decide),
        delOf_of_ne (by decide)]
      rfl

/-- What is charged to the other quotas does not depend on their entries. -/
theorem chargesOf_congr (h : n ≠ .vm) (q q' : Quotas) (type : QuotaType) (t : QuotaTemplate) :
    chargesOf C q type t n = chargesOf C q' type t n := by
  cases n with
  | vm => exact absurd rfl h
  | datastore | network | image => cases type <;> rfl

theorem setOf_of_ne (limits : QuotaName → List QuotaLimits) (r : Option QuotaError × Quotas)
    {n' : QuotaName} (h : n' ≠ n) : (setOf C limits n r).2 n' = r.2 n' := by
  obtain ⟨error, q⟩ := r
  cases error with
  | some error => rfl
  | none => exact Function.update_of_ne h _ _

theorem setOf_self (limits : QuotaName → List QuotaLimits) (r : Option QuotaError × Quotas) :
    (setOf C limits n r).2 n = r.2 n ∨
      (setOf C limits n r).2 n = ((C.kind n).set (limits n) (r.2 n)).2 := by
  obtain ⟨error, q⟩ := r
  cases error with
  | some error => exact Or.inl rfl
  | none => exact Or.inr (Function.update_self _ _ _)

/-- Each of the quotas is set, or it is left as it is. -/
theorem set_apply (pools : QuotaPools) (limits : QuotaName → List QuotaLimits) (q : Quotas) :
    (∀ n, n ≠ .vm → (set C pools limits q).2 n = q n ∨
      (set C pools limits q).2 n = ((C.kind n).set (limits n) (q n)).2) ∧
      ((set C pools limits q).2 .vm = q .vm ∨
        (set C pools limits q).2 .vm = (vmSet C pools (limits .vm) (q .vm)).2) := by
  set r₁ := setOf C limits .datastore (none, q) with hr₁
  set r₂ := setOf C limits .network r₁ with hr₂
  set r₃ := setOf C limits .image r₂ with hr₃
  have hother : ∀ n, n ≠ .vm → (set C pools limits q).2 n = r₃.2 n := by
    intro n hn
    unfold set
    rw [← hr₁, ← hr₂, ← hr₃]
    obtain ⟨error, q₃⟩ := r₃
    cases error with
    | some error => rfl
    | none => exact Function.update_of_ne hn _ _
  constructor
  · intro n hn
    rw [hother n hn]
    cases n with
    | vm => exact absurd rfl hn
    | datastore =>
      rw [hr₃, setOf_of_ne limits r₂ (by decide), hr₂, setOf_of_ne limits r₁ (by decide), hr₁]
      exact setOf_self limits (none, q)
    | network =>
      have hsame : r₁.2 .network = q .network := setOf_of_ne limits (none, q) (by decide)
      rw [hr₃, setOf_of_ne limits r₂ (by decide), ← hsame]
      exact setOf_self limits r₁
    | image =>
      have hsame : r₂.2 .image = q .image :=
        (setOf_of_ne limits r₁ (by decide)).trans (setOf_of_ne limits (none, q) (by decide))
      rw [← hsame]
      exact setOf_self limits r₂
  · have hsame : r₃.2 .vm = q .vm :=
      ((setOf_of_ne limits r₂ (by decide)).trans (setOf_of_ne limits r₁ (by decide))).trans
        (setOf_of_ne limits (none, q) (by decide))
    unfold set
    rw [← hr₁, ← hr₂, ← hr₃, ← hsame]
    obtain ⟨error, q₃⟩ := r₃
    cases error with
    | some error => exact Or.inl rfl
    | none =>
      dsimp only
      rw [Function.update_self]
      exact Or.inr rfl

end Quotas

/-! ## Runs -/

/-- The quotas of a user or of a group, with the accepted requests that are not deleted. -/
structure QuotaAccount where
  quotas : Quotas
  accepted : List (QuotaType × QuotaTemplate)

/-- What happens to the quotas. -/
inductive QuotaEvent where
  | check (type : QuotaType) (t : QuotaTemplate) (defaults : Quotas)
  | del (i : ℕ)
  | set (pools : QuotaPools) (limits : QuotaName → List QuotaLimits)

/-- The request is for the quota of virtual machines. -/
def QuotaType.isVm : QuotaType → Bool
  | .vm | .virtualMachine => true
  | _ => false

namespace QuotaAccount

/-- Quotas without entries. -/
def start : QuotaAccount := ⟨fun _ => [], []⟩

/-- A check that succeeds, the deletion of an accepted request, or a change of limits. -/
def step (C : QuotasConf) (a : QuotaAccount) : QuotaEvent → Option QuotaAccount
  | .check type t defaults =>
    match Quotas.quotaCheck C type t defaults a.quotas with
    | (none, q') => some ⟨q', (type, t) :: a.accepted⟩
    | (some _, _) => none
  | .del i =>
    match a.accepted[i]? with
    | none => none
    | some r => some ⟨Quotas.quotaDel C r.1 r.2 a.quotas, a.accepted.eraseIdx i⟩
  | .set pools limits => some ⟨(Quotas.set C pools limits a.quotas).2, a.accepted⟩

/-- What a request takes of an entry that is not a cluster quota. -/
def charged (C : QuotasConf) (r : QuotaType × QuotaTemplate) (n : QuotaName) (id : Text) (m : Metric) :
    ℚ :=
  amountOf (Quotas.chargesOf C (fun _ => []) r.1 r.2 n) id m

/-- What a request takes of a cluster quota. -/
def clusterCharged (C : QuotasConf) (r : QuotaType × QuotaTemplate) (ids : Text) (m : Metric) : ℚ :=
  if r.1.isVm then clusterAmount C r.2 ids m else 0

/-- What a request takes of a cluster. -/
def inCluster (C : QuotasConf) (r : QuotaType × QuotaTemplate) (c : ℤ) (m : Metric) : ℚ :=
  if r.1.isVm = true ∧ r.2.clusterId = some c then (vmRequest C r.2).amount m else 0

/-- The amounts for virtual machines are not negative, and only quotas of virtual machines are for
clusters. -/
def Plain (C : QuotasConf) (_ : QuotaAccount) : QuotaEvent → Prop
  | .check type t _ => type.isVm = true → ∀ m ∈ (C.kind .vm).metrics, 0 ≤ (vmRequest C t).amount m
  | .del _ => True
  | .set _ limits => ∀ n, n ≠ .vm → ∀ va ∈ limits n, va.clusterIds = []

/-- The virtual machines that the pool has for a cluster are the accepted requests. -/
def Recomputes (C : QuotasConf) (a : QuotaAccount) : QuotaEvent → Prop
  | .set pools limits => ∀ va ∈ limits .vm, ∀ c,
      (∀ t ∈ pools.vms va.uid va.gid c, t.clusterId = some c) ∧
      ∀ m ∈ (C.kind .vm).metrics,
        ((pools.vms va.uid va.gid c).map fun t => (vmRequest C t).amount m).sum =
          (a.accepted.map fun r => inCluster C r c m).sum
  | _ => True

variable {C : QuotasConf} {a a' : QuotaAccount}

/-- The usage is the sum of the accepted requests, and these can be deleted. -/
structure Balanced (C : QuotasConf) (a : QuotaAccount) : Prop where
  tidy : ∀ n, n ≠ .vm → (C.kind n).Tidy (a.quotas n)
  clusters : ClusterTidy C (a.quotas .vm)
  valid : ∀ r ∈ a.accepted, ∀ n, n ≠ .vm →
    ∀ c ∈ Quotas.chargesOf C (fun _ => []) r.1 r.2 n, (C.kind n).isValid c.1 = true
  nonneg : ∀ r ∈ a.accepted, ∀ n, ∀ c ∈ Quotas.chargesOf C (fun _ => []) r.1 r.2 n,
    ∀ m ∈ (C.kind n).metrics, 0 ≤ c.2.amount m
  usage : ∀ n id m, m ∈ (C.kind n).metrics → (n = .vm → id = []) →
    Quotas.usage C a.quotas n id m = (a.accepted.map fun r => charged C r n id m).sum

/-! ## Accepted requests -/

theorem amount_oneUnit_nonneg (m m' : Metric) : 0 ≤ (oneUnit m).amount m' := by
  unfold Usage.amount oneUnit
  split_ifs
  · exact zero_le_one
  · exact le_refl 0

theorem amount_datastoreRequest_nonneg (t : QuotaTemplate) {size : ℚ} (h : 0 ≤ size) (m : Metric) :
    0 ≤ (datastoreRequest t size).amount m := by
  unfold Usage.amount datastoreRequest
  split_ifs
  · rw [Option.getD_some]
    cases t.images with
    | none => exact zero_le_one
    | some n =>
      dsimp only
      split_ifs with hn
      · exact_mod_cast hn
      · exact zero_le_one
  · exact h
  · exact le_refl 0

/-- What is charged to an entry that is not a cluster quota depends on the request only. -/
theorem amountOf_chargesOf {n : QuotaName} {id : Text} (hid : n = .vm → id = []) (q : Quotas)
    (r : QuotaType × QuotaTemplate) (m : Metric) :
    amountOf (Quotas.chargesOf C q r.1 r.2 n) id m = charged C r n id m := by
  unfold charged
  by_cases hn : n = .vm
  · subst hn
    rw [hid rfl]
    cases hr : r.1 with
    | vm | virtualMachine =>
      unfold Quotas.chargesOf
      dsimp only
      rw [amountOf_vmCharges_nil, amountOf_vmCharges_nil]
    | datastore | network | image | virtualRouter => rfl
  · rw [Quotas.chargesOf_congr hn q fun _ => []]

/-- The charges of the networks and of the images are units. -/
theorem amount_nonneg_of_check {type : QuotaType} {t : QuotaTemplate} {defaults q q' : Quotas}
    (hcheck : Quotas.quotaCheck C type t defaults q = (none, q'))
    (hplain : type.isVm = true → ∀ m ∈ (C.kind .vm).metrics, 0 ≤ (vmRequest C t).amount m) :
    ∀ n, ∀ c ∈ Quotas.chargesOf C (fun _ => []) type t n, ∀ m ∈ (C.kind n).metrics,
      0 ≤ c.2.amount m := by
  have hnet : ∀ isVRouter, ∀ c ∈ networkCharges isVRouter t, ∀ m, 0 ≤ c.2.amount m := by
    intro isVRouter c hc m
    obtain ⟨nic, -, rfl⟩ := List.mem_map.mp hc
    exact amount_oneUnit_nonneg _ m
  have himage : ∀ c ∈ imageCharges t, ∀ m, 0 ≤ c.2.amount m := by
    intro c hc m
    obtain ⟨d, -, rfl⟩ := List.mem_map.mp hc
    exact amount_oneUnit_nonneg _ m
  intro n c hc m hm
  cases n with
  | datastore =>
    cases type with
    | datastore =>
      obtain ⟨size, -, hsize, hnonneg, -⟩ := Quotas.datastoreCheck_cases hcheck
      unfold Quotas.chargesOf at hc
      dsimp only at hc
      rw [hsize] at hc
      rw [List.mem_singleton.mp hc]
      exact amount_datastoreRequest_nonneg t hnonneg m
    | network | image | vm | virtualMachine | virtualRouter => exact absurd hc List.not_mem_nil
  | network =>
    cases type with
    | network | virtualMachine => exact hnet false c hc m
    | virtualRouter => exact hnet true c hc m
    | datastore | image | vm => exact absurd hc List.not_mem_nil
  | image =>
    cases type with
    | image | virtualMachine => exact himage c hc m
    | datastore | network | vm | virtualRouter => exact absurd hc List.not_mem_nil
  | vm =>
    cases type with
    | vm | virtualMachine =>
      rw [(Quotas.mem_vmCharges hc).1]
      exact hplain rfl m hm
    | datastore | network | image | virtualRouter => exact absurd hc List.not_mem_nil

theorem keyOf_fresh {n : QuotaName} (h : n ≠ .vm) (id : Text) :
    (C.kind n).keyOf (QuotaEntry.fresh id) = id := by
  cases n with
  | vm => exact absurd rfl h
  | datastore | network | image => rfl

theorem byCluster_eq_false {n : QuotaName} (h : n ≠ .vm) : (C.kind n).byCluster = false := by
  cases n with
  | vm => exact absurd rfl h
  | datastore | network | image => rfl

/-- The quota of virtual machines in a check. -/
theorem clusters_of_check {type : QuotaType} {t : QuotaTemplate} {defaults q q' : Quotas}
    (h : ClusterTidy C (q .vm)) (hcheck : Quotas.quotaCheck C type t defaults q = (none, q')) :
    ClusterTidy C (q' .vm) ∧ ∀ ids e', ids ≠ [] → find (C.kind .vm).keyOf (q' .vm) ids = some e' →
      ∃ e, find (C.kind .vm).keyOf (q .vm) ids = some e ∧
        ∀ m ∈ (C.kind .vm).metrics, e'.used m = e.used m + clusterCharged C (type, t) ids m := by
  have happly := Quotas.quotaCheck_apply hcheck .vm
  cases type with
  | vm | virtualMachine => exact h.check happly
  | datastore | network | image | virtualRouter =>
    rw [← (Prod.mk.inj happly).2]
    exact ⟨h, fun ids e' _ he' => ⟨e', he', fun m _ => (add_zero _).symm⟩⟩

/-- The quota of virtual machines in a deletion. -/
theorem clusters_of_del {q : Quotas} (h : ClusterTidy C (q .vm)) (type : QuotaType)
    (t : QuotaTemplate) :
    let q' := (C.kind .vm).delList (Quotas.chargesOf C q type t .vm) (q .vm)
    ClusterTidy C q' ∧ ∀ ids e', ids ≠ [] → find (C.kind .vm).keyOf q' ids = some e' →
      ∃ e, find (C.kind .vm).keyOf (q .vm) ids = some e ∧
        ∀ m ∈ (C.kind .vm).metrics, e'.used m = e.used m - clusterCharged C (type, t) ids m := by
  cases type with
  | vm | virtualMachine => exact h.del t
  | datastore | network | image | virtualRouter =>
    exact ⟨h, fun ids e' _ he' => ⟨e', he', fun m _ => (sub_zero _).symm⟩⟩

/-- The sum without a deleted request. -/
theorem sum_eraseIdx {f : QuotaType × QuotaTemplate → ℚ} {l : List (QuotaType × QuotaTemplate)} {i : ℕ}
    {r : QuotaType × QuotaTemplate} (h : l[i]? = some r) :
    ((l.eraseIdx i).map f).sum = (l.map f).sum - f r := by
  obtain ⟨hi, rfl⟩ := List.getElem?_eq_some_iff.mp h
  have hperm := ((List.getElem_cons_eraseIdx_perm hi).map f).sum_eq
  rw [List.map_cons, List.sum_cons] at hperm
  rw [← hperm, add_sub_cancel_left]

/-! ## The steps -/

theorem Balanced.check (h : Balanced C a) {type : QuotaType} {t : QuotaTemplate} {defaults q' : Quotas}
    (hcheck : Quotas.quotaCheck C type t defaults a.quotas = (none, q'))
    (hplain : type.isVm = true → ∀ m ∈ (C.kind .vm).metrics, 0 ≤ (vmRequest C t).amount m) :
    Balanced C ⟨q', (type, t) :: a.accepted⟩ := by
  have happly := Quotas.quotaCheck_apply hcheck
  have htidy : ∀ n, n ≠ .vm → (C.kind n).Tidy (q' n) ∧
      ∀ c ∈ Quotas.chargesOf C (fun _ => []) type t n, (C.kind n).isValid c.1 = true := by
    intro n hn
    rw [Quotas.chargesOf_congr hn (fun _ => []) a.quotas]
    exact (h.tidy n hn).checkList (keyOf_fresh hn) (happly n)
  refine ⟨fun n hn => (htidy n hn).1, (clusters_of_check h.clusters hcheck).1, ?_, ?_, ?_⟩
  · intro r hr n hn
    rcases List.mem_cons.mp hr with rfl | hmem
    · exact (htidy n hn).2
    · exact h.valid r hmem n hn
  · intro r hr
    rcases List.mem_cons.mp hr with rfl | hmem
    · exact amount_nonneg_of_check hcheck hplain
    · exact h.nonneg r hmem
  · intro n id m hm hid
    rw [Quotas.quotaCheck_usage hcheck n id hm, h.usage n id m hm hid,
      amountOf_chargesOf hid a.quotas (type, t) m, List.map_cons, List.sum_cons, add_comm]

/-- An accepted request takes no more of an entry than all of them. -/
theorem Balanced.charged_le (h : Balanced C a) {r : QuotaType × QuotaTemplate} (hr : r ∈ a.accepted)
    {n : QuotaName} {id : Text} {m : Metric} (hm : m ∈ (C.kind n).metrics) (hid : n = .vm → id = []) :
    charged C r n id m ≤ Quotas.usage C a.quotas n id m := by
  rw [h.usage n id m hm hid]
  refine List.single_le_sum ?_ _ (List.mem_map_of_mem hr)
  intro x hx
  obtain ⟨r', hr', rfl⟩ := List.mem_map.mp hx
  exact QuotaKind.amountOf_nonneg fun c hc _ => h.nonneg r' hr' n c hc m hm

theorem Balanced.del (h : Balanced C a) {i : ℕ} {r : QuotaType × QuotaTemplate}
    (hr : a.accepted[i]? = some r) :
    Balanced C ⟨Quotas.quotaDel C r.1 r.2 a.quotas, a.accepted.eraseIdx i⟩ := by
  have hmem := List.mem_of_getElem? hr
  have hsub : ∀ r' ∈ a.accepted.eraseIdx i, r' ∈ a.accepted := fun r' hr' =>
    (List.eraseIdx_sublist _ _).mem hr'
  have hvalid : ∀ n, n ≠ .vm → ∀ c ∈ Quotas.chargesOf C a.quotas r.1 r.2 n,
      (C.kind n).isValid c.1 = true := by
    intro n hn
    rw [Quotas.chargesOf_congr hn a.quotas fun _ => []]
    exact h.valid r hmem n hn
  have happly := Quotas.quotaDel_apply (C := C) (q := a.quotas) (t := r.2) r.1
    (hvalid .datastore (by decide))
  refine ⟨fun n hn => ?_, ?_, fun r' hr' => h.valid r' (hsub r' hr'),
    fun r' hr' => h.nonneg r' (hsub r' hr'), ?_⟩
  · dsimp only
    rw [happly n]
    exact (h.tidy n hn).delList _
  · dsimp only
    rw [happly .vm]
    exact (clusters_of_del h.clusters r.1 r.2).1
  · intro n id m hm hid
    dsimp only
    rw [sum_eraseIdx hr, ← h.usage n id m hm hid, ← amountOf_chargesOf hid a.quotas r m,
      Quotas.usage, happly n]
    have hcover : ∀ m ∈ (C.kind n).metrics,
        amountOf (Quotas.chargesOf C a.quotas r.1 r.2 n) id m ≤ (C.kind n).usage (a.quotas n) id m := by
      intro m hm
      rw [amountOf_chargesOf hid]
      exact h.charged_le hmem hm hid
    by_cases hn : n = .vm
    · subst hn
      obtain rfl := hid rfl
      refine QuotaKind.usage_delList h.clusters.unique (fun _ _ => rfl)
        (fun e he => clusterIds_of_find he) ?_ hcover m hm
      intro c hc hnil m hm
      cases hr₁ : r.1 with
      | vm | virtualMachine =>
        -- The global charge is there whatever the entries are.
        rw [hr₁] at hc
        obtain ⟨hreq, hids | ⟨-, hskip⟩⟩ := Quotas.mem_vmCharges hc
        · exact absurd hnil (ne_nil_of_getQuotaId hids)
        · rw [hreq]
          refine h.nonneg r hmem .vm ([], vmRequest C r.2) ?_ m hm
          rw [hr₁]
          refine List.mem_append_right _ ?_
          rw [hskip]
          exact List.mem_cons_self
      | datastore | network | image | virtualRouter =>
        rw [hr₁] at hc
        exact absurd hc List.not_mem_nil
    · refine QuotaKind.usage_delList (h.tidy n hn).unique (hvalid n hn)
        (fun e he => (h.tidy n hn).plain e (mem_of_find he)) ?_ hcover m hm
      intro c hc _
      rw [Quotas.chargesOf_congr hn a.quotas fun _ => []] at hc
      exact h.nonneg r hmem n c hc

theorem Balanced.set (h : Balanced C a) (pools : QuotaPools) {limits : QuotaName → List QuotaLimits}
    (hlimits : ∀ n, n ≠ .vm → ∀ va ∈ limits n, va.clusterIds = []) :
    Balanced C ⟨(Quotas.set C pools limits a.quotas).2, a.accepted⟩ := by
  obtain ⟨hother, hvm⟩ := Quotas.set_apply (C := C) pools limits a.quotas
  have hset : ∀ n, n ≠ .vm → (C.kind n).Tidy ((Quotas.set C pools limits a.quotas).2 n) ∧
      ∀ id, ∀ m ∈ (C.kind n).metrics, Quotas.usage C (Quotas.set C pools limits a.quotas).2 n id m =
        Quotas.usage C a.quotas n id m := by
    intro n hn
    unfold Quotas.usage
    rcases hother n hn with heq | heq
    · rw [heq]
      exact ⟨h.tidy n hn, fun id m _ => rfl⟩
    · rw [heq]
      exact (h.tidy n hn).set (byCluster_eq_false hn) (hlimits n hn)
  have hset' : ClusterTidy C ((Quotas.set C pools limits a.quotas).2 .vm) ∧
      ∀ m ∈ (C.kind .vm).metrics, Quotas.usage C (Quotas.set C pools limits a.quotas).2 .vm [] m =
        Quotas.usage C a.quotas .vm [] m := by
    unfold Quotas.usage
    rcases hvm with heq | heq
    · rw [heq]
      exact ⟨h.clusters, fun m _ => rfl⟩
    · rw [heq]
      have hupdated := h.clusters.set pools (limits .vm)
      exact ⟨hupdated.tidy, hupdated.global⟩
  refine ⟨fun n hn => (hset n hn).1, hset'.1, h.valid, h.nonneg, fun n id m hm hid => ?_⟩
  dsimp only
  rw [← h.usage n id m hm hid]
  by_cases hn : n = .vm
  · subst hn
    rw [hid rfl]
    exact hset'.2 m hm
  · exact (hset n hn).2 id m hm

/-! ## Cluster quotas -/

/-- The usage of a cluster quota that is there is the sum of the accepted requests in its clusters. -/
def ClusterBalanced (C : QuotasConf) (a : QuotaAccount) : Prop :=
  ∀ ids e m, ids ≠ [] → find (C.kind .vm).keyOf (a.quotas .vm) ids = some e →
    m ∈ (C.kind .vm).metrics → e.used m = (a.accepted.map fun r => clusterCharged C r ids m).sum

/-- A request is in at most one of the clusters of an entry. -/
theorem sum_inCluster (r : QuotaType × QuotaTemplate) (ids : Text) (m : Metric) :
    ((splitUnique ids).map fun c => inCluster C r c m).sum = clusterCharged C r ids m := by
  unfold clusterCharged clusterAmount
  by_cases hvm : r.1.isVm = true
  · rw [if_pos hvm]
    cases hc : r.2.clusterId with
    | none =>
      refine List.sum_eq_zero fun x hx => ?_
      obtain ⟨c, -, rfl⟩ := List.mem_map.mp hx
      exact if_neg fun h => absurd (hc.symm.trans h.2) (by simp)
    | some c =>
      have hself : inCluster C r c m = (vmRequest C r.2).amount m := if_pos ⟨hvm, hc⟩
      have hother : ∀ c', c' ≠ c → c' ∈ splitUnique ids → inCluster C r c' m = 0 := by
        intro c' hne _
        exact if_neg fun h => hne (Option.some.inj (h.2.symm.trans hc))
      dsimp only
      rw [List.sum_map_eq_nsmul_single c _ hother, (nodup_splitUnique ids).count, hself]
      split_ifs
      · exact one_smul ℕ _
      · exact zero_smul ℕ _
  · rw [if_neg hvm]
    refine List.sum_eq_zero fun x hx => ?_
    obtain ⟨c, -, rfl⟩ := List.mem_map.mp hx
    exact if_neg fun h => hvm h.1

theorem sum_accepted_clusters (l : List (QuotaType × QuotaTemplate)) (ids : Text) (m : Metric) :
    ((splitUnique ids).map fun c => (l.map fun r => inCluster C r c m).sum).sum =
      (l.map fun r => clusterCharged C r ids m).sum := by
  induction l with
  | nil =>
    refine List.sum_eq_zero fun x hx => ?_
    obtain ⟨c, -, rfl⟩ := List.mem_map.mp hx
    rfl
  | cons r l ih =>
    simp only [List.map_cons, List.sum_cons]
    rw [List.sum_map_add, ih, sum_inCluster]

/-- The usage that is computed from the virtual machines is the one of the accepted requests. -/
theorem sum_recomputed {pools : QuotaPools} {limits : QuotaName → List QuotaLimits}
    (hrec : Recomputes C a (.set pools limits)) {va : QuotaLimits} (hva : va ∈ limits .vm) (ids : Text)
    {m : Metric} (hm : m ∈ (C.kind .vm).metrics) :
    (((splitUnique ids).flatMap fun c => pools.vms va.uid va.gid c).map fun t =>
      clusterAmount C t ids m).sum = (a.accepted.map fun r => clusterCharged C r ids m).sum := by
  have hloop : ∀ l : List ℤ, (∀ c ∈ l, c ∈ splitUnique ids) →
      ((l.flatMap fun c => pools.vms va.uid va.gid c).map fun t => clusterAmount C t ids m).sum =
        (l.map fun c => (a.accepted.map fun r => inCluster C r c m).sum).sum := by
    intro l hl
    induction l with
    | nil => rfl
    | cons c l ih =>
      obtain ⟨hin, hsum⟩ := hrec va hva c
      have hamounts : ((pools.vms va.uid va.gid c).map fun t => clusterAmount C t ids m) =
          (pools.vms va.uid va.gid c).map fun t => (vmRequest C t).amount m := by
        refine List.map_congr_left fun t ht => ?_
        rw [clusterAmount, hin t ht]
        exact if_pos (hl c List.mem_cons_self)
      rw [List.flatMap_cons, List.map_append, List.sum_append, hamounts, hsum m hm,
        ih fun c' hc' => hl c' (List.mem_cons_of_mem c hc'), List.map_cons, List.sum_cons]
  rw [hloop _ fun _ h => h, sum_accepted_clusters]

theorem ClusterBalanced.set (h : ClusterBalanced C a) (htidy : ClusterTidy C (a.quotas .vm))
    {pools : QuotaPools} {limits : QuotaName → List QuotaLimits}
    (hrec : Recomputes C a (.set pools limits)) :
    ClusterBalanced C ⟨(Quotas.set C pools limits a.quotas).2, a.accepted⟩ := by
  intro ids e' m hne he' hm
  dsimp only at he' ⊢
  rcases (Quotas.set_apply (C := C) pools limits a.quotas).2 with heq | heq
  · rw [heq] at he'
    exact h ids e' m hne he' hm
  · rw [heq] at he'
    have hin : InCluster pools (limits .vm) := fun va hva c => (hrec va hva c).1
    rcases (htidy.set pools (limits .vm)).entry hin ids e' hne he' with
      ⟨e, he, hused⟩ | ⟨va, hva, hused⟩
    · rw [hused m hm]
      exact h ids e m hne he hm
    · rw [hused m hm]
      exact sum_recomputed hrec hva ids hm

/-! ## Conservation -/

theorem balanced_start (C : QuotasConf) : Balanced C start := by
  refine ⟨fun n _ => ⟨List.nodup_nil, by simp [start]⟩, ⟨List.nodup_nil, ?_⟩, by simp [start],
    by simp [start], fun n id m _ _ => rfl⟩
  intro e he
  exact absurd he List.not_mem_nil

/-- **One step.** -/
theorem Balanced.step (h : Balanced C a) {event : QuotaEvent} (hplain : Plain C a event)
    (hstep : step C a event = some a') : Balanced C a' := by
  cases event with
  | check type t defaults =>
    unfold QuotaAccount.step at hstep
    dsimp only at hstep
    split at hstep
    · rename_i q' hcheck
      rw [← Option.some.inj hstep]
      exact h.check hcheck hplain
    · exact absurd hstep (by simp)
  | del i =>
    unfold QuotaAccount.step at hstep
    dsimp only at hstep
    split at hstep
    · exact absurd hstep (by simp)
    · rename_i r hr
      rw [← Option.some.inj hstep]
      exact h.del hr
  | set pools limits =>
    rw [← Option.some.inj hstep]
    exact h.set pools hplain

theorem ClusterBalanced.step (h : ClusterBalanced C a) (hbal : Balanced C a) {event : QuotaEvent}
    (hrec : Recomputes C a event) (hstep : step C a event = some a') : ClusterBalanced C a' := by
  cases event with
  | check type t defaults =>
    unfold QuotaAccount.step at hstep
    dsimp only at hstep
    split at hstep
    · rename_i q' hcheck
      rw [← Option.some.inj hstep]
      intro ids e' m hne he' hm
      obtain ⟨e, he, hused⟩ := (clusters_of_check hbal.clusters hcheck).2 ids e' hne he'
      rw [hused m hm, h ids e m hne he hm, List.map_cons, List.sum_cons, add_comm]
    · exact absurd hstep (by simp)
  | del i =>
    unfold QuotaAccount.step at hstep
    dsimp only at hstep
    split at hstep
    · exact absurd hstep (by simp)
    · rename_i r hr
      rw [← Option.some.inj hstep]
      intro ids e' m hne he' hm
      have hds : ∀ c ∈ Quotas.chargesOf C a.quotas r.1 r.2 .datastore,
          (C.kind .datastore).isValid c.1 = true := by
        rw [Quotas.chargesOf_congr (by decide) a.quotas fun _ => []]
        exact hbal.valid r (List.mem_of_getElem? hr) .datastore (by decide)
      dsimp only at he' ⊢
      rw [Quotas.quotaDel_apply r.1 hds .vm] at he'
      obtain ⟨e, he, hused⟩ := (clusters_of_del hbal.clusters r.1 r.2).2 ids e' hne he'
      rw [hused m hm, h ids e m hne he hm, sum_eraseIdx hr]
  | set pools limits =>
    rw [← Option.some.inj hstep]
    exact h.set hbal.clusters hrec

/-- **Conservation of the usage.**  In every plain run the usage of an entry is the sum of the accepted
requests that are not deleted, where an entry that is not there has no usage.  A cluster quota that is
there has the usage of the accepted requests in its clusters, if the virtual machines that the pool has
for them are the accepted requests whenever such a quota is made. -/
theorem usage_eq_accepted (hrun : Transition.Reach (step C) (Plain C) start a) :
    (∀ n id m, m ∈ (C.kind n).metrics → (n = .vm → id = []) →
      Quotas.usage C a.quotas n id m = (a.accepted.map fun r => charged C r n id m).sum) ∧
      (Transition.Reach (step C) (fun a e => Plain C a e ∧ Recomputes C a e) start a →
        ∀ ids e m, ids ≠ [] → find (C.kind .vm).keyOf (a.quotas .vm) ids = some e →
          m ∈ (C.kind .vm).metrics →
          e.used m = (a.accepted.map fun r => clusterCharged C r ids m).sum) := by
  constructor
  · have hbal : Balanced C a := hrun.inv (balanced_start C) fun _ _ _ h hplain hstep =>
      h.step hplain hstep
    exact hbal.usage
  · intro hrun'
    have hboth : Balanced C a ∧ ClusterBalanced C a := by
      refine hrun'.inv (P := fun a => Balanced C a ∧ ClusterBalanced C a) ⟨balanced_start C, ?_⟩ ?_
      · intro ids e m _ he
        exact absurd he (by simp [start, find_nil])
      · rintro s event s' ⟨hbal, hcluster⟩ ⟨hplain, hrec⟩ hstep
        exact ⟨hbal.step hplain hstep, hcluster.step hbal hrec hstep⟩
    exact hboth.2

/-! ## Runs of a cluster quota -/

/-- The configuration without generic metrics. -/
def conf : QuotasConf := ⟨false, [], QuotaStore.plainConf.nodup⟩

/-- A virtual machine in the cluster 0, with its processors. -/
def vmOf (cpu : ℚ) : QuotaTemplate where
  datastore := []
  images := none
  clusterId := some 0
  skipGlobalQuota := false
  value := fun m => if m = "CPU".toList then some cpu else none
  nics := []
  disks := []
  snapshots := []

/-- The limits of the quota of virtual machines for some clusters: processors, or none. -/
def cpuLimit (ids : String) (cpu : Option ℚ) : QuotaName → List QuotaLimits
  | .vm => [⟨[], ids.toList, fun m => if m = "CPU".toList then cpu else none, -1, -1⟩]
  | _ => []

/-- A pool with the cluster 0 and without virtual machines. -/
def onePool : QuotaPools := ⟨[0], fun _ _ _ => []⟩

/-- A quota for the cluster 0, and two virtual machines, one of which is deleted. -/
def ledgerRun : List QuotaEvent :=
  [.check .vm (vmOf 2) fun _ => [], .check .virtualMachine (vmOf 3) fun _ => [], .del 0]

theorem plain_ledgerRun : ∀ e ∈ ledgerRun, ∀ a, Plain conf a e ∧ Recomputes conf a e := by
  have hcheck : ∀ type (cpu : ℚ), 0 ≤ cpu → ∀ a,
      Plain conf a (.check type (vmOf cpu) fun _ => []) := by
    intro type cpu hcpu a _ m _
    unfold Usage.amount vmRequest
    split_ifs
    · exact le_refl 0
    · unfold vmOf
      dsimp only
      split_ifs
      · exact hcpu
      · exact le_refl 0
    · exact le_refl 0
  intro e he a
  simp only [ledgerRun, List.mem_cons, List.not_mem_nil, or_false] at he
  rcases he with rfl | rfl | rfl
  · exact ⟨hcheck _ _ (by norm_num) a, trivial⟩
  · exact ⟨hcheck _ _ (by norm_num) a, trivial⟩
  · exact ⟨trivial, trivial⟩

/-- The quota for the cluster 0 is made before there are virtual machines. -/
theorem reach_limit :
    Transition.Reach (step conf) (fun a e => Plain conf a e ∧ Recomputes conf a e) start
      ⟨(Quotas.set conf onePool (cpuLimit "0" (some 10)) start.quotas).2, []⟩ := by
  refine Transition.Reach.refl.tail (e := .set onePool (cpuLimit "0" (some 10))) ⟨?_, ?_⟩ rfl
  · intro n hn va hva
    cases n with
    | vm => exact absurd rfl hn
    | datastore | network | image => exact absurd hva List.not_mem_nil
  · intro va _ c
    exact ⟨by simp [onePool], fun m _ => rfl⟩

/-- The quotas with the limit for the cluster 0. -/
def limited : QuotaAccount := ⟨(Quotas.set conf onePool (cpuLimit "0" (some 10)) start.quotas).2, []⟩

theorem isSome_ledgerRun : (Transition.runEvents (step conf) limited ledgerRun).isSome = true := by
  decide +kernel

theorem usage_ledgerRun :
    ∃ a, Transition.runEvents (step conf) limited ledgerRun = some a ∧ a.accepted.length = 1 ∧
      Quotas.usage conf a.quotas .vm [] "CPU".toList =
        (a.accepted.map fun r => charged conf r .vm [] "CPU".toList).sum ∧
      ∃ e, find (conf.kind .vm).keyOf (a.quotas .vm) "0".toList = some e ∧
        e.used "CPU".toList = (a.accepted.map fun r => clusterCharged conf r "0".toList "CPU".toList).sum := by
  have hlen : ((Transition.runEvents (step conf) limited ledgerRun).get
      isSome_ledgerRun).accepted.length = 1 := by
    decide +kernel
  have hentry : (find (conf.kind .vm).keyOf
      (((Transition.runEvents (step conf) limited ledgerRun).get isSome_ledgerRun).quotas .vm)
      "0".toList).isSome = true := by
    decide +kernel
  obtain ⟨a, ha⟩ := Option.isSome_iff_exists.mp isSome_ledgerRun
  obtain ⟨e, he⟩ := Option.isSome_iff_exists.mp hentry
  simp only [ha, Option.get_some] at hlen he
  have hrest : Transition.Reach (step conf) (fun a e => Plain conf a e ∧ Recomputes conf a e)
      limited a :=
    (Transition.reach_of_runEvents ledgerRun plain_ledgerRun ha).mono fun s e h => h s
  have hrun := reach_limit.trans hrest
  have husage := usage_eq_accepted (hrun.mono fun _ _ h => h.1)
  exact ⟨a, ha, hlen, husage.1 .vm [] _ (by decide) fun _ => rfl, e, he,
    husage.2 hrun _ e _ (by decide) he (by decide)⟩

/-- The limit for the cluster 0 is taken away while a virtual machine is there. -/
def droppedRun : List QuotaEvent :=
  [.set onePool (cpuLimit "0" (some 10)), .check .vm (vmOf 2) fun _ => [],
    .set onePool (cpuLimit "0" none)]

/-- Two opposite requests, a change of limits, and the deletion of the first request. -/
def oppositeRun : List QuotaEvent :=
  [.check .vm (vmOf 1) fun _ => [], .check .vm (vmOf (-1)) fun _ => [],
    .set onePool (cpuLimit "" none), .del 1]

theorem isSome_droppedRun : (Transition.runEvents (step conf) start droppedRun).isSome = true := by
  decide +kernel

theorem isSome_oppositeRun : (Transition.runEvents (step conf) start oppositeRun).isSome = true := by
  decide

/-- **Usage that gets lost.**  The entry of a cluster is dropped while an accepted request uses it, and
the deletion of a request is lost when the entry was dropped because of a negative amount. -/
theorem lost_usage :
    (∃ a, Transition.Run (step conf) start a ∧
      (find (conf.kind .vm).keyOf (a.quotas .vm) "0".toList).isNone = true ∧
      (a.accepted.map fun r => clusterCharged conf r "0".toList "CPU".toList).sum = 2) ∧
    ∃ a, Transition.Run (step conf) start a ∧
      Quotas.usage conf a.quotas .vm [] "CPU".toList = 0 ∧
      (a.accepted.map fun r => charged conf r .vm [] "CPU".toList).sum = -1 := by
  have hreach : ∀ es a, Transition.runEvents (step conf) start es = some a →
      Transition.Run (step conf) start a := fun es a ha =>
    Transition.reach_of_runEvents (P := fun _ => True) es (fun _ _ => trivial) ha
  constructor
  · refine ⟨_, hreach droppedRun _ (Option.some_get isSome_droppedRun).symm, ?_, ?_⟩
    · decide +kernel
    · decide +kernel
  · refine ⟨_, hreach oppositeRun _ (Option.some_get isSome_oppositeRun).symm, ?_, ?_⟩
    · decide +kernel
    · decide +kernel

end QuotaAccount
