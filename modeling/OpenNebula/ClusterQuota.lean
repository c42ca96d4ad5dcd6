/-
# Quotas of clusters

A quota of virtual machines may be for some clusters: a request charges the entry of its cluster next
to the global entry.  No cluster is in two entries, because `set` refuses a cluster that has a quota
and writes the clusters it has read (`mem_splitUnique_joinIds`); so the entry that a request charges is
the one whose clusters have its cluster.  This file says what checks, deletions and limits do to the
global entry and to the entries of the clusters.
-/
import OpenNebula.QuotaCleanup

namespace ClusterQuota

open KeyedList TextNumber TextList

/-! ## The entry of a cluster -/

/-- No cluster is in two entries. -/
def Apart (q : List QuotaEntry) : Prop :=
  ∀ e ∈ q, ∀ e' ∈ q, ∀ c, c ∈ splitUnique e.clusterIds → c ∈ splitUnique e'.clusterIds →
    e.clusterIds = e'.clusterIds

/-- No two entries have the same clusters, and no cluster is in two entries. -/
structure ClusterTidy (C : QuotasConf) (q : List QuotaEntry) : Prop where
  unique : Unique (C.kind .vm).keyOf q
  apart : Apart q

/-- What a request charges to an entry of clusters. -/
def clusterAmount (C : QuotasConf) (t : QuotaTemplate) (ids : Text) (m : Metric) : ℚ :=
  match t.clusterId with
  | none => 0
  | some c => if c ∈ splitUnique ids then (vmRequest C t).amount m else 0

section

variable {C : QuotasConf} {q q' defaults : List QuotaEntry} {t : QuotaTemplate} {ids : Text}
  {e : QuotaEntry} {m : Metric}

theorem keyOf_vm (C : QuotasConf) (e : QuotaEntry) : (C.kind .vm).keyOf e = e.clusterIds := rfl

theorem clusterIds_of_find (h : find (C.kind .vm).keyOf q ids = some e) : e.clusterIds = ids :=
  key_of_find h

/-- The entries of a list all have the clusters of an entry of another list, or no clusters. -/
theorem Apart.of_find (hu : Unique (C.kind .vm).keyOf q') (h : Apart q)
    (hkeys : ∀ ids e', find (C.kind .vm).keyOf q' ids = some e' → ids ≠ [] →
      ∃ e, find (C.kind .vm).keyOf q ids = some e) : Apart q' := by
  have hold : ∀ e ∈ q', ∀ c, c ∈ splitUnique e.clusterIds →
      ∃ e₀ ∈ q, e₀.clusterIds = e.clusterIds := by
    intro e he c hc
    have hne : e.clusterIds ≠ [] := by
      intro hnil
      rw [hnil, splitUnique_nil] at hc
      exact List.not_mem_nil hc
    obtain ⟨e₀, he₀⟩ := hkeys _ e (find_of_mem hu he) hne
    exact ⟨e₀, mem_of_find he₀, clusterIds_of_find he₀⟩
  intro e he e' he' c hc hc'
  obtain ⟨e₀, he₀, hids⟩ := hold e he c hc
  obtain ⟨e₁, he₁, hids'⟩ := hold e' he' c hc'
  rw [← hids] at hc
  rw [← hids'] at hc'
  rw [← hids, ← hids']
  exact h e₀ he₀ e₁ he₁ c hc hc'

theorem ne_nil_of_getQuotaId (h : getQuotaId t q = some ids) : ids ≠ [] := by
  rintro rfl
  obtain ⟨c, -, -, -, -, hmem⟩ := Quotas.mem_of_getQuotaId h
  rw [splitUnique_nil] at hmem
  exact List.not_mem_nil hmem

/-- The entry of a cluster is the one whose clusters have it. -/
theorem ClusterTidy.getQuotaId_iff (h : ClusterTidy C q)
    (hfind : find (C.kind .vm).keyOf q ids = some e) :
    getQuotaId t q = some ids ↔ ∃ c, t.clusterId = some c ∧ c ∈ splitUnique ids := by
  constructor
  · intro hid
    obtain ⟨c, -, hc, -, -, hmem⟩ := Quotas.mem_of_getQuotaId hid
    exact ⟨c, hc, hmem⟩
  · rintro ⟨c, hc, hmem⟩
    have hkey := clusterIds_of_find hfind
    have hsome : (clusterQuota q c).isSome := by
      rw [clusterQuota, List.find?_isSome]
      exact ⟨e, mem_of_find hfind, by rw [hkey]; exact decide_eq_true hmem⟩
    obtain ⟨e₀, he₀⟩ := Option.isSome_iff_exists.mp hsome
    have hmem₀ : c ∈ splitUnique e₀.clusterIds := by simpa using List.find?_some he₀
    rw [← hkey] at hmem ⊢
    have heq := h.apart e₀ (List.mem_of_find?_eq_some he₀) e (mem_of_find hfind) c hmem₀ hmem
    rw [getQuotaId, hc]
    dsimp only
    rw [he₀, Option.map_some, heq]

/-- What a request charges to the global entry and to an entry of clusters. -/
theorem amountOf_vmCharges_nil : amountOf (vmCharges C q t) [] m =
    if t.skipGlobalQuota then 0 else (vmRequest C t).amount m := by
  unfold vmCharges
  cases hid : getQuotaId t q with
  | none =>
    dsimp only
    split_ifs
    · rfl
    · exact add_zero _
  | some ids =>
    have hne := ne_nil_of_getQuotaId hid
    dsimp only
    rw [List.singleton_append, amountOf_cons, if_neg hne, zero_add]
    split_ifs
    · rfl
    · exact add_zero _

theorem ClusterTidy.amountOf_vmCharges (h : ClusterTidy C q) (hne : ids ≠ [])
    (hfind : find (C.kind .vm).keyOf q ids = some e) :
    amountOf (vmCharges C q t) ids m = clusterAmount C t ids m := by
  have hglobal : amountOf (if t.skipGlobalQuota then [] else [([], vmRequest C t)]) ids m = 0 := by
    split_ifs
    · rfl
    · rw [amountOf_cons, if_neg (Ne.symm hne), zero_add]
      rfl
  have hamount : clusterAmount C t ids m =
      if getQuotaId t q = some ids then (vmRequest C t).amount m else 0 := by
    unfold clusterAmount
    cases hc : t.clusterId with
    | none =>
      rw [if_neg]
      rw [h.getQuotaId_iff hfind]
      rintro ⟨c, hc', -⟩
      exact absurd (hc.symm.trans hc') (by simp)
    | some c =>
      refine if_congr ?_ rfl rfl
      rw [h.getQuotaId_iff hfind]
      constructor
      · intro hmem
        exact ⟨c, hc, hmem⟩
      · rintro ⟨c', hc', hmem⟩
        rw [Option.some.inj (hc.symm.trans hc')]
        exact hmem
  rw [hamount]
  unfold vmCharges
  cases hid : getQuotaId t q with
  | none =>
    have hno : (none : Option Text) ≠ some ids := by simp
    rw [if_neg hno]
    exact hglobal
  | some ids' =>
    dsimp only
    rw [List.singleton_append, amountOf_cons, hglobal, add_zero]
    refine if_congr ?_ rfl rfl
    rw [Option.some.injEq]

/-! ## Checks, deletions and limits -/

/-- An entry of clusters that is there after a check was there before it. -/
theorem find_of_checkList {l : List (Text × Usage)}
    (hcheck : (C.kind .vm).checkList defaults l q = (none, q'))
    (hfits : ∀ c ∈ l, (C.kind .vm).Fits q c.1)
    (hfind : find (C.kind .vm).keyOf q' ids = some e) (hne : ids ≠ []) :
    ∃ e₀, find (C.kind .vm).keyOf q ids = some e₀ := by
  induction l generalizing q with
  | nil =>
    rw [(Prod.mk.inj hcheck).2]
    exact ⟨e, hfind⟩
  | cons c l ih =>
    rw [QuotaKind.checkList] at hcheck
    cases hone : (C.kind .vm).checkQuota c.1 c.2 defaults q with
    | mk error q₁ =>
      rw [hone] at hcheck
      cases error with
      | some error => exact absurd (Prod.mk.inj hcheck).1 (by simp)
      | none =>
        have hc := hfits c List.mem_cons_self
        obtain ⟨e₁, he₁⟩ := ih hcheck fun c' hc' =>
          QuotaKind.Fits.checkQuota hone hc (hfits c' (List.mem_cons_of_mem c hc'))
        rw [QuotaKind.find_checkQuota hone hc] at he₁
        split_ifs at he₁ with hid
        · rw [hid]
          refine Option.isSome_iff_exists.mp (hc.resolve_left fun hkey => hne ?_)
          rw [hid, ← hkey]
          rfl
        · exact ⟨e₁, he₁⟩

theorem unique_checkList {K : QuotaKind} {l : List (Text × Usage)} (hu : Unique K.keyOf q)
    (hcheck : K.checkList defaults l q = (none, q')) (hfits : ∀ c ∈ l, K.Fits q c.1) :
    Unique K.keyOf q' := by
  induction l generalizing q with
  | nil =>
    rw [← (Prod.mk.inj hcheck).2]
    exact hu
  | cons c l ih =>
    rw [QuotaKind.checkList] at hcheck
    cases hone : K.checkQuota c.1 c.2 defaults q with
    | mk error q₁ =>
      rw [hone] at hcheck
      cases error with
      | some error => exact absurd (Prod.mk.inj hcheck).1 (by simp)
      | none =>
        have hc := hfits c List.mem_cons_self
        refine ih ?_ hcheck fun c' hc' =>
          QuotaKind.Fits.checkQuota hone hc (hfits c' (List.mem_cons_of_mem c hc'))
        obtain ⟨-, ⟨-, rfl⟩ | ⟨hnone, rfl⟩⟩ := QuotaKind.checkQuota_cases hone
        · exact hu.modify fun e => K.keyOf_charge e
        · refine hu.concat ?_
          rw [QuotaKind.keyOf_charge, hc.resolve_right (by rw [hnone]; exact Bool.false_ne_true)]
          exact hnone

/-- **A check of a virtual machine** charges the entry of its cluster. -/
theorem ClusterTidy.check (h : ClusterTidy C q)
    (hcheck : (C.kind .vm).checkList defaults (vmCharges C q t) q = (none, q')) :
    ClusterTidy C q' ∧ ∀ ids e', ids ≠ [] → find (C.kind .vm).keyOf q' ids = some e' →
      ∃ e, find (C.kind .vm).keyOf q ids = some e ∧
        ∀ m ∈ (C.kind .vm).metrics, e'.used m = e.used m + clusterAmount C t ids m := by
  have hfits := Quotas.fits_vmCharges (C := C) (t := t) q
  have hu := unique_checkList h.unique hcheck hfits
  refine ⟨⟨hu, h.apart.of_find hu fun ids e' he' hne => find_of_checkList hcheck hfits he' hne⟩, ?_⟩
  intro ids e' hne he'
  obtain ⟨e, he⟩ := find_of_checkList hcheck hfits he' hne
  refine ⟨e, he, fun m hm => ?_⟩
  have husage := QuotaKind.usage_checkList (i := ids) hcheck hfits hm
  rw [QuotaKind.usage_of_find he', QuotaKind.usage_of_find he, h.amountOf_vmCharges hne he] at husage
  exact husage

/-- **A deletion of a virtual machine** takes its amounts from the entry of its cluster. -/
theorem ClusterTidy.del (h : ClusterTidy C q) (t : QuotaTemplate) :
    ClusterTidy C ((C.kind .vm).delList (vmCharges C q t) q) ∧
      ∀ ids e', ids ≠ [] →
        find (C.kind .vm).keyOf ((C.kind .vm).delList (vmCharges C q t) q) ids = some e' →
        ∃ e, find (C.kind .vm).keyOf q ids = some e ∧
          ∀ m ∈ (C.kind .vm).metrics, e'.used m = e.used m - clusterAmount C t ids m := by
  have hu := QuotaKind.unique_delList h.unique (vmCharges C q t)
  have hvalid : ∀ c ∈ vmCharges C q t, (C.kind .vm).isValid c.1 = true := fun _ _ => rfl
  refine ⟨⟨hu, h.apart.of_find hu fun ids e' he' _ => ?_⟩, ?_⟩
  · obtain ⟨e, he, -⟩ := QuotaKind.find_delList h.unique hvalid he'
    exact ⟨e, he⟩
  · intro ids e' hne he'
    obtain ⟨e, he, -, hused⟩ := QuotaKind.find_delList h.unique hvalid he'
    refine ⟨e, he, fun m hm => ?_⟩
    rw [hused m hm, h.amountOf_vmCharges hne he]

theorem addQuota_vm (ids : Text) (req : Usage) (q : List QuotaEntry) :
    (C.kind .vm).addQuota ids req q =
      modify (C.kind .vm).keyOf (QuotaEntry.charge (C.kind .vm).metrics req) ids q :=
  if_pos rfl

/-- What is found after a virtual machine is added to the entry of its cluster. -/
theorem find_vmAdd (C : QuotasConf) (t : QuotaTemplate) (q : List QuotaEntry) (ids : Text) :
    find (C.kind .vm).keyOf (vmAdd C { t with skipGlobalQuota := true } q) ids =
      if getQuotaId t q = some ids then
        (find (C.kind .vm).keyOf q ids).map (QuotaEntry.charge (C.kind .vm).metrics (vmRequest C t))
      else find (C.kind .vm).keyOf q ids := by
  have hid : getQuotaId { t with skipGlobalQuota := true } q = getQuotaId t q := rfl
  unfold vmAdd vmCharges
  rw [hid, if_pos rfl, List.append_nil]
  cases getQuotaId t q with
  | none =>
    rw [if_neg (by simp)]
    rfl
  | some ids' =>
    rw [List.foldl_cons, List.foldl_nil, addQuota_vm,
      find_modify fun e => (C.kind .vm).keyOf_charge e]
    by_cases heq : ids = ids'
    · rw [if_pos heq, if_pos (congrArg some heq.symm), heq]
      rfl
    · rw [if_neg heq, if_neg fun h => heq (Option.some.inj h).symm]

theorem unique_vmAdd (hu : Unique (C.kind .vm).keyOf q) (t : QuotaTemplate) :
    Unique (C.kind .vm).keyOf (vmAdd C t q) := by
  unfold vmAdd
  generalize vmCharges C q t = l
  induction l generalizing q with
  | nil => exact hu
  | cons c l ih =>
    refine ih ?_
    dsimp only
    rw [addQuota_vm]
    exact hu.modify fun e => (C.kind .vm).keyOf_charge e

/-- Each entry has its usage and some amounts more. -/
def Charged (C : QuotasConf) (q q' : List QuotaEntry) (amount : Text → Metric → ℚ) : Prop :=
  ∀ ids, find (C.kind .vm).keyOf q ids = none ∧ find (C.kind .vm).keyOf q' ids = none ∨
    ∃ e e', find (C.kind .vm).keyOf q ids = some e ∧ find (C.kind .vm).keyOf q' ids = some e' ∧
      ∀ m ∈ (C.kind .vm).metrics, e'.used m = e.used m + amount ids m

theorem Charged.refl (C : QuotasConf) (q : List QuotaEntry) : Charged C q q fun _ _ => 0 := by
  intro ids
  cases hfind : find (C.kind .vm).keyOf q ids with
  | none => exact Or.inl ⟨rfl, rfl⟩
  | some e => exact Or.inr ⟨e, e, rfl, rfl, fun m _ => (add_zero _).symm⟩

theorem Charged.trans {q'' : List QuotaEntry} {a b : Text → Metric → ℚ} (h : Charged C q q' a)
    (h' : Charged C q' q'' b) : Charged C q q'' fun ids m => a ids m + b ids m := by
  intro ids
  rcases h ids with ⟨hnone, hnone'⟩ | ⟨e, e', he, he', hused⟩
  · rcases h' ids with ⟨-, hnone''⟩ | ⟨e₁, -, he₁, -⟩
    · exact Or.inl ⟨hnone, hnone''⟩
    · exact absurd (hnone'.symm.trans he₁) (by simp)
  · rcases h' ids with ⟨hnone', -⟩ | ⟨e₁, e'', he₁, he'', hused'⟩
    · exact absurd (hnone'.symm.trans he') (by simp)
    · obtain rfl := Option.some.inj (he'.symm.trans he₁)
      refine Or.inr ⟨e, e'', he, he'', fun m hm => ?_⟩
      rw [hused' m hm, hused m hm, add_assoc]

theorem clusterAmount_nil (C : QuotasConf) (t : QuotaTemplate) (m : Metric) :
    clusterAmount C t [] m = 0 := by
  unfold clusterAmount
  cases t.clusterId with
  | none => rfl
  | some c => exact if_neg (by rw [splitUnique_nil]; exact List.not_mem_nil)

/-- A virtual machine is added to the entry of its cluster. -/
theorem ClusterTidy.add (h : ClusterTidy C q) (t : QuotaTemplate) :
    ClusterTidy C (vmAdd C { t with skipGlobalQuota := true } q) ∧
      Charged C q (vmAdd C { t with skipGlobalQuota := true } q) (clusterAmount C t) := by
  have hu := unique_vmAdd h.unique { t with skipGlobalQuota := true }
  have hcharged : Charged C q (vmAdd C { t with skipGlobalQuota := true } q) (clusterAmount C t) := by
    intro ids
    rw [find_vmAdd]
    cases hfind : find (C.kind .vm).keyOf q ids with
    | none => exact Or.inl ⟨rfl, ite_self none⟩
    | some e =>
      refine Or.inr ?_
      by_cases hid : getQuotaId t q = some ids
      · obtain ⟨c, hc, hmem⟩ := (h.getQuotaId_iff hfind).mp hid
        refine ⟨e, _, rfl, if_pos hid, fun m hm => ?_⟩
        rw [QuotaEntry.used_charge (C.kind .vm).nodup hm, clusterAmount, hc]
        dsimp only
        rw [if_pos hmem]
      · refine ⟨e, e, rfl, if_neg hid, fun m _ => ?_⟩
        have hzero : clusterAmount C t ids m = 0 := by
          unfold clusterAmount
          cases hc : t.clusterId with
          | none => rfl
          | some c => exact if_neg fun hmem => hid ((h.getQuotaId_iff hfind).mpr ⟨c, hc, hmem⟩)
        rw [hzero, add_zero]
  refine ⟨⟨hu, h.apart.of_find hu fun ids e' he' _ => ?_⟩, hcharged⟩
  rcases hcharged ids with ⟨-, hnone⟩ | ⟨e, -, he, -⟩
  · exact absurd (hnone.symm.trans he') (by simp)
  · exact ⟨e, he⟩

/-- The virtual machines of a list are added to the entries of their clusters. -/
theorem ClusterTidy.addList (h : ClusterTidy C q) (ts : List QuotaTemplate) :
    ClusterTidy C (ts.foldl (fun q t => vmAdd C { t with skipGlobalQuota := true } q) q) ∧
      Charged C q (ts.foldl (fun q t => vmAdd C { t with skipGlobalQuota := true } q) q)
        fun ids m => (ts.map fun t => clusterAmount C t ids m).sum := by
  induction ts generalizing q with
  | nil => exact ⟨h, Charged.refl C q⟩
  | cons t ts ih =>
    obtain ⟨htidy, hcharged⟩ := h.add t
    obtain ⟨htidy', hcharged'⟩ := ih htidy
    exact ⟨htidy', hcharged.trans hcharged'⟩

/-- Each entry that is there was there with its usage, and the global entry has its usage. -/
structure Kept (C : QuotasConf) (q q' : List QuotaEntry) : Prop where
  tidy : ClusterTidy C q'
  entry : ∀ ids e', find (C.kind .vm).keyOf q' ids = some e' →
    ∃ e, find (C.kind .vm).keyOf q ids = some e ∧ e'.used = e.used
  global : ∀ m ∈ (C.kind .vm).metrics, (C.kind .vm).usage q' [] m = (C.kind .vm).usage q [] m

theorem ClusterTidy.cleanup (h : ClusterTidy C q) (qid : Text) :
    Kept C q ((C.kind .vm).cleanupQuota qid q) := by
  obtain ⟨hu, hframe, hself⟩ := QuotaKind.cleanupQuota_cases h.unique qid
  have hentry : ∀ ids e', find (C.kind .vm).keyOf ((C.kind .vm).cleanupQuota qid q) ids = some e' →
      ∃ e, find (C.kind .vm).keyOf q ids = some e ∧ e'.used = e.used := by
    intro ids e' he'
    by_cases hid : ids = qid
    · subst hid
      rcases hself with ⟨e₁, he₁, e, he, -, hused⟩ | ⟨hnone, -⟩
      · obtain rfl := Option.some.inj (he₁.symm.trans he')
        exact ⟨e, he, hused⟩
      · exact absurd (hnone.symm.trans he') (by simp)
    · rw [hframe ids hid] at he'
      exact ⟨e', he', rfl⟩
  refine ⟨⟨hu, h.apart.of_find hu fun ids e' he' _ => ?_⟩, hentry, fun m hm => ?_⟩
  · obtain ⟨e, he, -⟩ := hentry ids e' he'
    exact ⟨e, he⟩
  · by_cases hid : qid = []
    · subst hid
      exact QuotaKind.usage_cleanupQuota h.unique (fun e he => clusterIds_of_find he) hm
    · rw [QuotaKind.usage, QuotaKind.usage, hframe [] (Ne.symm hid)]

theorem ClusterTidy.limits (h : ClusterTidy C q) (va : QuotaLimits) (qid : Text) :
    Kept C q (modify (C.kind .vm).keyOf
      (fun e => ((C.kind .vm).updateLimits va (C.kind .vm).metrics e).2) qid q) := by
  have hkey := fun e => (C.kind .vm).keyOf_updateLimits va e
  have hu := h.unique.modify (k := qid) hkey
  have hentry : ∀ ids e', find (C.kind .vm).keyOf (modify (C.kind .vm).keyOf
      (fun e => ((C.kind .vm).updateLimits va (C.kind .vm).metrics e).2) qid q) ids = some e' →
      ∃ e, find (C.kind .vm).keyOf q ids = some e ∧ e'.used = e.used := by
    intro ids e' he'
    rw [find_modify hkey] at he'
    split_ifs at he' with hid
    · obtain ⟨e, he, rfl⟩ := Option.map_eq_some_iff.mp he'
      rw [hid]
      exact ⟨e, he, (QuotaKind.updateLimits_fields va _ e).2.2⟩
    · exact ⟨e', he', rfl⟩
  refine ⟨⟨hu, h.apart.of_find hu fun ids e' he' _ => ?_⟩, hentry, fun m _ => ?_⟩
  · obtain ⟨e, he, -⟩ := hentry ids e' he'
    exact ⟨e, he⟩
  · exact QuotaKind.usage_modify_of_used hkey
      (fun e => (QuotaKind.updateLimits_fields va _ e).2.2) qid

/-- A new entry whose clusters have no quota yet. -/
theorem ClusterTidy.concat (h : ClusterTidy C q) (hnew : find (C.kind .vm).keyOf q e.clusterIds = none)
    (hapart : ∀ c ∈ splitUnique e.clusterIds, clusterQuota q c = none) : ClusterTidy C (q ++ [e]) := by
  have hold : ∀ e' ∈ q, ∀ c, c ∈ splitUnique e.clusterIds → c ∉ splitUnique e'.clusterIds := by
    intro e' he' c hc hc'
    have hnone := List.find?_eq_none.mp (hapart c hc) e' he'
    exact hnone (decide_eq_true hc')
  refine ⟨h.unique.concat hnew, ?_⟩
  intro e₁ he₁ e₂ he₂ c hc₁ hc₂
  rcases List.mem_append.mp he₁ with hmem₁ | hmem₁
  · rcases List.mem_append.mp he₂ with hmem₂ | hmem₂
    · exact h.apart e₁ hmem₁ e₂ hmem₂ c hc₁ hc₂
    · rw [List.mem_singleton.mp hmem₂] at hc₂
      exact absurd hc₁ (hold e₁ hmem₁ c hc₂)
  · rw [List.mem_singleton.mp hmem₁] at hc₁ ⊢
    rcases List.mem_append.mp he₂ with hmem₂ | hmem₂
    · exact absurd hc₂ (hold e₂ hmem₂ c hc₁)
    · rw [List.mem_singleton.mp hmem₂]

theorem wrongCluster_eq_none {pools : QuotaPools} {l : List ℤ} (h : wrongCluster pools q l = none) :
    ∀ c ∈ l, 0 ≤ c ∧ clusterQuota q c = none := by
  intro c hc
  have hone := List.findSome?_eq_none_iff.mp h c hc
  split_ifs at hone with hmem hsome
  obtain ⟨n, -, rfl⟩ := List.mem_map.mp hmem
  exact ⟨Int.natCast_nonneg n, Option.not_isSome_iff_eq_none.mp hsome⟩

/-- The virtual machines that a pool has for a cluster are in the cluster. -/
def InCluster (pools : QuotaPools) (vas : List QuotaLimits) : Prop :=
  ∀ va ∈ vas, ∀ c, ∀ t ∈ pools.vms va.uid va.gid c, t.clusterId = some c

/-- What a change of limits does: an entry of clusters was there with its usage, or its usage is the
one of the virtual machines of its clusters. -/
structure Updated (C : QuotasConf) (pools : QuotaPools) (vas : List QuotaLimits)
    (q q' : List QuotaEntry) : Prop where
  tidy : ClusterTidy C q'
  global : ∀ m ∈ (C.kind .vm).metrics, (C.kind .vm).usage q' [] m = (C.kind .vm).usage q [] m
  entry : InCluster pools vas → ∀ ids e', ids ≠ [] → find (C.kind .vm).keyOf q' ids = some e' →
    (∃ e, find (C.kind .vm).keyOf q ids = some e ∧ ∀ m ∈ (C.kind .vm).metrics, e'.used m = e.used m) ∨
      ∃ va ∈ vas, ∀ m ∈ (C.kind .vm).metrics, e'.used m =
        (((splitUnique ids).flatMap fun c => pools.vms va.uid va.gid c).map fun t =>
          clusterAmount C t ids m).sum

theorem Kept.updated (h : Kept C q q') (pools : QuotaPools) (vas : List QuotaLimits) :
    Updated C pools vas q q' := by
  refine ⟨h.tidy, h.global, fun _ ids e' _ he' => Or.inl ?_⟩
  obtain ⟨e, he, hused⟩ := h.entry ids e' he'
  exact ⟨e, he, fun m _ => by rw [hused]⟩

theorem Updated.trans {pools : QuotaPools} {vas vas' : List QuotaLimits} {q'' : List QuotaEntry}
    (h : Updated C pools vas q q') (h' : Updated C pools vas' q' q'') :
    Updated C pools (vas ++ vas') q q'' := by
  refine ⟨h'.tidy, fun m hm => (h'.global m hm).trans (h.global m hm), ?_⟩
  intro hpool ids e'' hne he''
  have hpool₁ : InCluster pools vas := fun va hva => hpool va (List.mem_append_left _ hva)
  have hpool₂ : InCluster pools vas' := fun va hva => hpool va (List.mem_append_right _ hva)
  rcases h'.entry hpool₂ ids e'' hne he'' with ⟨e', he', hused'⟩ | ⟨va, hva, hused'⟩
  · rcases h.entry hpool₁ ids e' hne he' with ⟨e, he, hused⟩ | ⟨va, hva, hused⟩
    · exact Or.inl ⟨e, he, fun m hm => (hused' m hm).trans (hused m hm)⟩
    · exact Or.inr ⟨va, List.mem_append_left _ hva, fun m hm => (hused' m hm).trans (hused m hm)⟩
  · exact Or.inr ⟨va, List.mem_append_right _ hva, hused'⟩

/-- A new entry, with the virtual machines of its clusters. -/
theorem ClusterTidy.newEntry (h : ClusterTidy C (q ++ [e]))
    (hnew : find (C.kind .vm).keyOf q e.clusterIds = none) (hzero : e.used = fun _ => 0)
    (pools : QuotaPools) (va : QuotaLimits) :
    Updated C pools [va] q (if e.clusterIds ≠ [] then
      recomputeClusters C pools va e.clusterIds (q ++ [e]) else q ++ [e]) := by
  have hfind : ∀ ids, find (C.kind .vm).keyOf (q ++ [e]) ids =
      (find (C.kind .vm).keyOf q ids).or (if e.clusterIds = ids then some e else none) := fun ids =>
    find_concat
  by_cases hids : e.clusterIds ≠ []
  · rw [if_pos hids]
    unfold recomputeClusters
    set ts := (splitUnique e.clusterIds).flatMap fun c => pools.vms va.uid va.gid c with hts
    obtain ⟨htidy, hcharged⟩ := h.addList ts
    refine ⟨htidy, fun m hm => ?_, ?_⟩
    · -- No virtual machine is added to the global entry.
      have hold := hfind []
      rw [if_neg hids, Option.or_none] at hold
      rcases hcharged [] with ⟨hnone, hnone'⟩ | ⟨e₀, e', he₀, he', hused⟩
      · rw [QuotaKind.usage_of_find_none hnone', QuotaKind.usage_of_find_none (hold.symm.trans hnone)]
      · have hsum : (ts.map fun t => clusterAmount C t [] m).sum = 0 :=
          List.sum_eq_zero (by simp [clusterAmount_nil])
        dsimp only at hused
        rw [QuotaKind.usage_of_find he', QuotaKind.usage_of_find (hold.symm.trans he₀), hused m hm,
          hsum, add_zero]
    · intro hpool ids e' hne he'
      rcases hcharged ids with ⟨-, hnone⟩ | ⟨e₀, e₁, he₀, he₁, hused⟩
      · exact absurd (hnone.symm.trans he') (by simp)
      obtain rfl := Option.some.inj (he₁.symm.trans he')
      by_cases hself : ids = e.clusterIds
      · subst hself
        rw [hfind, hnew, if_pos rfl, Option.none_or] at he₀
        obtain rfl := Option.some.inj he₀
        refine Or.inr ⟨va, List.mem_singleton_self va, fun m hm => ?_⟩
        rw [hused m hm, hzero, zero_add]
      · -- The clusters of the new entry are not in another one.
        have hmem₀ := mem_of_find he₀
        have hkey₀ := clusterIds_of_find he₀
        have hold := hfind ids
        rw [if_neg (Ne.symm hself), Option.or_none] at hold
        refine Or.inl ⟨e₀, hold.symm.trans he₀, fun m hm => ?_⟩
        dsimp only at hused
        have hsum : (ts.map fun t => clusterAmount C t ids m).sum = 0 := by
          refine List.sum_eq_zero fun x hx => ?_
          obtain ⟨t, ht, rfl⟩ := List.mem_map.mp hx
          obtain ⟨c, hc, htc⟩ := List.mem_flatMap.mp ht
          rw [clusterAmount, hpool va (List.mem_singleton_self va) c t htc]
          refine if_neg fun hmem => hself ?_
          rw [← hkey₀] at hmem ⊢
          exact h.apart e₀ hmem₀ e (List.mem_append_right _ (List.mem_singleton_self e)) c hmem hc
        rw [hused m hm, hsum, add_zero]
  · rw [if_neg hids]
    rw [not_not] at hids
    refine ⟨h, fun m _ => ?_, fun _ ids e' hne he' => Or.inl ⟨e', ?_, fun m _ => rfl⟩⟩
    · exact QuotaKind.usage_concat_of_used hzero hnew
    · rw [hfind, if_neg (by rw [hids]; exact Ne.symm hne), Option.or_none] at he'
      exact he'

/-- **A change of the limits of virtual machines** keeps the usage of the global entry, and the one of
the entries of clusters. -/
theorem ClusterTidy.set (h : ClusterTidy C q) (pools : QuotaPools) (vas : List QuotaLimits) :
    Updated C pools vas q (vmSet C pools vas q).2 := by
  have hrefl : ∀ {q : List QuotaEntry} (vas : List QuotaLimits), ClusterTidy C q →
      Updated C pools vas q q := fun vas h =>
    Kept.updated ⟨h, fun ids e he => ⟨e, he, rfl⟩, fun m _ => rfl⟩ pools vas
  induction vas generalizing q with
  | nil => exact hrefl [] h
  | cons va vas ih =>
    rw [vmSet]
    dsimp only
    cases hfind : find (C.kind .vm).keyOf q (joinIds (splitUnique va.clusterIds)) with
    | none =>
      dsimp only
      cases hwrong : wrongCluster pools q (splitUnique va.clusterIds) with
      | some error => exact hrefl _ h
      | none =>
        dsimp only
        cases hnew : (C.kind .vm).newQuota
            { va with clusterIds := joinIds (splitUnique va.clusterIds) } with
        | none => exact hrefl _ h
        | some nq =>
          obtain ⟨-, hids, hused⟩ := QuotaKind.newQuota_fields hnew
          dsimp only at hids
          rw [← hids] at hfind
          have hclusters := wrongCluster_eq_none hwrong
          have htidy : ClusterTidy C (q ++ [nq]) := by
            refine h.concat hfind fun c hc => ?_
            rw [hids] at hc
            exact (hclusters c (mem_splitUnique_joinIds (fun c' hc' => (hclusters c' hc').1) hc)).2
          have hone := htidy.newEntry hfind hused pools va
          have hclean := (hone.tidy.cleanup nq.clusterIds).updated pools []
          have hrest := ih hclean.tidy
          rw [← hids]
          exact (hone.trans hclean).trans hrest
    | some e =>
      dsimp only
      have hlimits := h.limits { va with clusterIds := joinIds (splitUnique va.clusterIds) }
        (joinIds (splitUnique va.clusterIds))
      split_ifs
      · have hclean := hlimits.tidy.cleanup (joinIds (splitUnique va.clusterIds))
        exact ((hlimits.updated pools [va]).trans (hclean.updated pools [])).trans (ih hclean.tidy)
      · exact hlimits.updated pools _

end

end ClusterQuota
