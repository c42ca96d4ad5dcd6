/-
# Runs of the quotas of clusters

The quotas of virtual machines of one object change by checks, deletions and changes of limits, in any
order.  In every state the sets of clusters of two entries are disjoint (`disjoint_of_run`), so the
entry of a cluster is the only one, and a request is taken from the entry it was charged to, as long as
this entry is there.
-/
import OpenNebula.QuotaLedger

namespace ClusterQuota

open KeyedList TextList

/-- What can be done to the quotas of virtual machines. -/
inductive VmEvent where
  | check (t : QuotaTemplate) (defaults : List QuotaEntry)
  | del (t : QuotaTemplate)
  | set (pools : QuotaPools) (newQuotas : List QuotaLimits)

/-- A check that succeeds or fails, a deletion, or a change of limits that may stop at an error. -/
def vmStep (C : QuotasConf) (q : List QuotaEntry) : VmEvent → Option (List QuotaEntry)
  | .check t defaults => some ((C.kind .vm).checkList defaults (vmCharges C q t) q).2
  | .del t => some ((C.kind .vm).delList (vmCharges C q t) q)
  | .set pools newQuotas => some (vmSet C pools newQuotas q).2

variable {C : QuotasConf} {q q' defaults : List QuotaEntry} {t : QuotaTemplate}

/-! ## Checks that may fail -/

/-- The same clusters have entries. -/
def SameClusters (C : QuotasConf) (q q' : List QuotaEntry) : Prop :=
  ∀ ids, ids ≠ [] →
    (find (C.kind .vm).keyOf q' ids).isSome = (find (C.kind .vm).keyOf q ids).isSome

/-- An entry that is made for a check has no clusters. -/
theorem ClusterTidy.concat_fresh (h : ClusterTidy C q) {e : QuotaEntry} (hids : e.clusterIds = [])
    (hnew : find (C.kind .vm).keyOf q [] = none) :
    ClusterTidy C (q ++ [e]) ∧ SameClusters C q (q ++ [e]) := by
  refine ⟨h.concat (by rw [hids]; exact hnew) fun c hc => ?_, fun ids hne => ?_⟩
  · rw [hids, splitUnique_nil] at hc
    exact absurd hc List.not_mem_nil
  · rw [find_concat, keyOf_vm, hids, if_neg (Ne.symm hne), Option.or_none]

variable (defaults) in
/-- **One check**, whatever its result. -/
theorem ClusterTidy.checkQuota (h : ClusterTidy C q) {qid : Text} (req : Usage)
    (hfits : (C.kind .vm).Fits q qid) :
    ClusterTidy C ((C.kind .vm).checkQuota qid req defaults q).2 ∧
      SameClusters C q ((C.kind .vm).checkQuota qid req defaults q).2 := by
  have hfind : (C.kind .vm).getQuota q qid = some (find (C.kind .vm).keyOf q qid) := if_pos rfl
  unfold QuotaKind.checkQuota
  rw [hfind]
  dsimp only
  cases hqid : find (C.kind .vm).keyOf q qid with
  | some e =>
    have hkey : ∀ e, (C.kind .vm).keyOf (e.charge (C.kind .vm).metrics req) = (C.kind .vm).keyOf e :=
      fun e => (C.kind .vm).keyOf_charge e
    dsimp only
    split
    · exact ⟨h, fun _ _ => rfl⟩
    · refine ⟨⟨h.unique.modify hkey, ?_⟩, fun ids _ => ?_⟩
      · refine h.apart.of_find (h.unique.modify hkey) fun ids e' he' _ => ?_
        rw [find_modify hkey] at he'
        split_ifs at he' with hid
        · rw [hid]
          exact ⟨e, hqid⟩
        · exact ⟨e', he'⟩
      · rw [find_modify hkey]
        split_ifs with hid
        · rw [hid, Option.isSome_map]
        · rfl
  | none =>
    have hnil : qid = [] := by
      rcases hfits with hkey | hsome
      · exact hkey.symm
      · rw [hqid] at hsome
        exact absurd hsome Bool.false_ne_true
    subst hnil
    dsimp only
    split
    · exact h.concat_fresh rfl hqid
    · exact h.concat_fresh QuotaEntry.charge_fields.2.1 hqid

variable (defaults) in
theorem ClusterTidy.checkList (l : List (Text × Usage)) :
    ∀ {q : List QuotaEntry}, ClusterTidy C q → (∀ c ∈ l, (C.kind .vm).Fits q c.1) →
      ClusterTidy C ((C.kind .vm).checkList defaults l q).2 ∧
        SameClusters C q ((C.kind .vm).checkList defaults l q).2 := by
  induction l with
  | nil => exact fun h _ => ⟨h, fun _ _ => rfl⟩
  | cons c l ih =>
    intro q h hfits
    obtain ⟨hc, hl⟩ := List.forall_mem_cons.mp hfits
    have hone := h.checkQuota defaults c.2 hc
    rw [QuotaKind.checkList]
    split
    · rename_i error q₁ heq
      rw [heq] at hone
      exact hone
    · rename_i q₁ heq
      rw [heq] at hone
      obtain ⟨htidy, hsame⟩ := hone
      have hfits' : ∀ c' ∈ l, (C.kind .vm).Fits q₁ c'.1 := by
        intro c' hc'
        by_cases hnil : c'.1 = []
        · rw [hnil]
          exact Or.inl rfl
        · exact (hl c' hc').imp_right fun hsome => by rwa [hsame c'.1 hnil]
      obtain ⟨htidy', hsame'⟩ := ih htidy hfits'
      exact ⟨htidy', fun ids hne => (hsame' ids hne).trans (hsame ids hne)⟩

/-! ## Runs -/

theorem clusterTidy_nil (C : QuotasConf) : ClusterTidy C [] :=
  ⟨List.nodup_nil, fun _ he => absurd he List.not_mem_nil⟩

theorem ClusterTidy.vmStep (h : ClusterTidy C q) {event : VmEvent}
    (hstep : vmStep C q event = some q') : ClusterTidy C q' := by
  cases event with
  | check t defaults =>
    rw [← Option.some.inj hstep]
    exact (ClusterTidy.checkList defaults (vmCharges C q t) h (Quotas.fits_vmCharges q)).1
  | del t =>
    rw [← Option.some.inj hstep]
    exact (h.del t).1
  | set pools newQuotas =>
    rw [← Option.some.inj hstep]
    exact (h.set pools newQuotas).tidy

theorem ClusterTidy.vmRun (h : ClusterTidy C q) (hrun : Transition.Run (ClusterQuota.vmStep C) q q') :
    ClusterTidy C q' :=
  hrun.inv h fun _ _ _ h _ hstep => h.vmStep hstep

/-- The clusters of two entries at different places have nothing in common. -/
theorem ClusterTidy.pairwise_disjoint (h : ClusterTidy C q) :
    q.Pairwise fun e e' => Disjoint {c | c ∈ splitUnique e.clusterIds}
      {c | c ∈ splitUnique e'.clusterIds} := by
  have hkeys : q.Pairwise fun e e' => e.clusterIds ≠ e'.clusterIds := List.pairwise_map.mp h.unique
  refine hkeys.imp_of_mem fun he he' hne => ?_
  rw [Set.disjoint_left]
  intro c hc hc'
  exact hne (h.apart _ he _ he' c hc hc')

/-- The entry of a cluster is the one that `get_quota_id` finds. -/
theorem ClusterTidy.getQuotaId_eq (h : ClusterTidy C q) {e : QuotaEntry} {c : ℤ}
    (hc : t.clusterId = some c) (he : e ∈ q) (hmem : c ∈ splitUnique e.clusterIds) :
    getQuotaId t q = some e.clusterIds :=
  (h.getQuotaId_iff (find_of_mem h.unique he)).mpr ⟨c, hc, hmem⟩

theorem ClusterTidy.getQuotaId_same (h : ClusterTidy C q) (h' : ClusterTidy C q')
    (hsame : SameClusters C q q') (t : QuotaTemplate) : getQuotaId t q' = getQuotaId t q := by
  have hone : ∀ {q q' : List QuotaEntry}, ClusterTidy C q → ClusterTidy C q' → SameClusters C q q' →
      ∀ ids, getQuotaId t q = some ids → getQuotaId t q' = some ids := by
    intro q q' h h' hsame ids hid
    obtain ⟨c, e, hc, he, rfl, hmem⟩ := Quotas.mem_of_getQuotaId hid
    have hstay := hsame e.clusterIds (ne_nil_of_getQuotaId hid)
    rw [← keyOf_vm C, find_of_mem h.unique he, Option.isSome_some] at hstay
    obtain ⟨e', he'⟩ := Option.isSome_iff_exists.mp hstay
    exact (h'.getQuotaId_iff he').mpr ⟨c, hc, hmem⟩
  refine Option.ext fun ids => ⟨?_, hone h h' hsame ids⟩
  exact hone h' h (fun ids hne => (hsame ids hne).symm) ids

/-- **The clusters of two entries are disjoint** in every state that a quota object reaches.  So at
most one entry of clusters is for the cluster of a request, a request that was charged to an entry is
taken from this entry as long as it is there, and it is there right after the check. -/
theorem disjoint_of_run (hrun : Transition.Run (vmStep C) [] q) :
    (q.Pairwise fun e e' => Disjoint {c | c ∈ splitUnique e.clusterIds}
      {c | c ∈ splitUnique e'.clusterIds}) ∧
    (∀ t c, t.clusterId = some c → ∀ e ∈ q, c ∈ splitUnique e.clusterIds →
      getQuotaId t q = some e.clusterIds ∧ ∀ e' ∈ q, c ∈ splitUnique e'.clusterIds → e' = e) ∧
    (∀ t ids q', getQuotaId t q = some ids → Transition.Run (vmStep C) q q' →
      (∃ e ∈ q', e.clusterIds = ids) → getQuotaId t q' = some ids) ∧
    ∀ t defaults,
      vmCharges C ((C.kind .vm).checkList defaults (vmCharges C q t) q).2 t = vmCharges C q t := by
  have h := (clusterTidy_nil C).vmRun hrun
  refine ⟨h.pairwise_disjoint, fun t c hc e he hmem => ⟨h.getQuotaId_eq hc he hmem, ?_⟩, ?_, ?_⟩
  · intro e' he' hmem'
    have hids := h.apart e' he' e he c hmem' hmem
    have hfind := find_of_mem h.unique he
    have hfind' := find_of_mem h.unique he'
    rw [keyOf_vm, hids, ← keyOf_vm C e, hfind] at hfind'
    exact (Option.some.inj hfind').symm
  · rintro t ids q' hid hrun' ⟨e, he, rfl⟩
    obtain ⟨c, -, hc, -, -, hmem⟩ := Quotas.mem_of_getQuotaId hid
    exact (h.vmRun hrun').getQuotaId_eq hc he hmem
  · intro t defaults
    obtain ⟨htidy, hsame⟩ :=
      ClusterTidy.checkList defaults (vmCharges C q t) h (Quotas.fits_vmCharges q)
    have hid := h.getQuotaId_same htidy hsame t
    unfold vmCharges at hid ⊢
    rw [hid]

/-- Two quotas for clusters, a third one that is refused for its first cluster, and a request. -/
def clusterRun : List VmEvent :=
  let pools : QuotaPools := ⟨[0, 1, 2], fun _ _ _ => []⟩
  [.set pools (QuotaAccount.cpuLimit "1,0" (some 10) .vm),
    .set pools (QuotaAccount.cpuLimit "2" (some 10) .vm),
    .set pools (QuotaAccount.cpuLimit "1,2" (some 10) .vm), .check (QuotaAccount.vmOf 2) []]

theorem disjoint_clusterRun :
    ∃ q, Transition.runEvents (vmStep QuotaAccount.conf) [] clusterRun = some q ∧
      q.map QuotaEntry.clusterIds = ["0,1".toList, "2".toList, []] ∧
      (q.Pairwise fun e e' => Disjoint {c | c ∈ splitUnique e.clusterIds}
        {c | c ∈ splitUnique e'.clusterIds}) ∧
      getQuotaId (QuotaAccount.vmOf 2) q = some "0,1".toList := by
  have hids : (Transition.runEvents (vmStep QuotaAccount.conf) [] clusterRun).map
      (List.map QuotaEntry.clusterIds) = some ["0,1".toList, "2".toList, []] := by
    decide +kernel
  obtain ⟨q, hq, hlist⟩ := Option.map_eq_some_iff.mp hids
  obtain ⟨hdisjoint, hone, -⟩ := disjoint_of_run (Transition.run_of_runEvents clusterRun hq)
  obtain ⟨e, he, heids⟩ := List.mem_map.mp (hlist ▸ List.mem_cons_self :
    "0,1".toList ∈ q.map QuotaEntry.clusterIds)
  have hentry := (hone (QuotaAccount.vmOf 2) 0 rfl e he (by rw [heids]; decide)).1
  rw [heids] at hentry
  exact ⟨q, hq, hlist, hdisjoint, hentry⟩

end ClusterQuota
