/-
# What every change of the quotas keeps

The quotas of a user or of a group are changed by checks, by deletions of any template, by additions of
virtual machines and by new limits.  In all the states that they reach the entries have different keys,
the clusters of two entries have nothing in common, and each entry of clusters has a limit
(`quotas_sound_of_run`): new limits are cleaned up at once, and nothing else changes a limit.
-/
import OpenNebula.QuotaReleases

open KeyedList ClusterQuota

/-- Different keys, disjoint clusters, and limits for the entries of clusters; the quotas are not the
default ones. -/
structure Sound (C : QuotasConf) (q : Quotas) : Prop where
  notDefault : C.isDefault = false
  tidy : ∀ n, n ≠ .vm → (C.kind n).Tidy (q n)
  clusters : ClusterTidy C (q .vm)
  lasting : Lasting C (q .vm)

namespace ClusterQuota

/-! ## New limits -/

variable {C : QuotasConf} {q q' q'' : List QuotaEntry} {qid : Text}

/-- The entries were there, with a limit or without one. -/
def KeepsLimits (C : QuotasConf) (q q' : List QuotaEntry) : Prop :=
  ∀ ids e', find (C.kind .vm).keyOf q' ids = some e' →
    ∃ e, find (C.kind .vm).keyOf q ids = some e ∧ ((C.kind .vm).Limited e' ↔ (C.kind .vm).Limited e)

theorem KeepsLimits.trans (h : KeepsLimits C q q') (h' : KeepsLimits C q' q'') :
    KeepsLimits C q q'' := by
  intro ids e'' he''
  obtain ⟨e', he', hiff'⟩ := h' ids e'' he''
  obtain ⟨e, he, hiff⟩ := h ids e' he'
  exact ⟨e, he, hiff'.trans hiff⟩

theorem keepsLimits_addList (l : List (Text × Usage)) :
    KeepsLimits C q (l.foldl (fun q c => (C.kind .vm).addQuota c.1 c.2 q) q) := by
  induction l generalizing q with
  | nil => exact fun ids e he => ⟨e, he, Iff.rfl⟩
  | cons c l ih =>
    refine KeepsLimits.trans ?_ ih
    intro ids e' he'
    dsimp only at he'
    rw [addQuota_vm, find_modify fun e => (C.kind .vm).keyOf_charge e] at he'
    split_ifs at he' with hid
    · subst hid
      obtain ⟨e, he, rfl⟩ := Option.map_eq_some_iff.mp he'
      exact ⟨e, he, QuotaKind.limited_charge⟩
    · exact ⟨e', he', Iff.rfl⟩

/-- An addition, to the entry of a cluster and to the global one. -/
theorem keepsLimits_vmAdd (t : QuotaTemplate) : KeepsLimits C q (vmAdd C t q) :=
  keepsLimits_addList (vmCharges C q t)

theorem clusterTidy_vmAdd (h : ClusterTidy C q) (t : QuotaTemplate) : ClusterTidy C (vmAdd C t q) := by
  refine ⟨unique_vmAdd h.unique t, h.apart.of_find (unique_vmAdd h.unique t) fun ids e' he' _ => ?_⟩
  obtain ⟨e, he, -⟩ := keepsLimits_vmAdd t ids e' he'
  exact ⟨e, he⟩

theorem keepsLimits_foldl (ts : List QuotaTemplate) :
    KeepsLimits C q (ts.foldl (fun q t => vmAdd C { t with skipGlobalQuota := true } q) q) := by
  induction ts generalizing q with
  | nil => exact fun ids e he => ⟨e, he, Iff.rfl⟩
  | cons t ts ih => exact (keepsLimits_vmAdd _).trans ih

/-- The entries of clusters have a limit, but for one that is not cleaned up yet. -/
def LastingBut (C : QuotasConf) (qid : Text) (q : List QuotaEntry) : Prop :=
  ∀ ids e, ids ≠ [] → ids ≠ qid → find (C.kind .vm).keyOf q ids = some e → (C.kind .vm).Limited e

theorem LastingBut.keeps (h : LastingBut C qid q) (hkeeps : KeepsLimits C q q') :
    LastingBut C qid q' := by
  intro ids e' hne hid he'
  obtain ⟨e, he, hiff⟩ := hkeeps ids e' he'
  exact hiff.mpr (h ids e hne hid he)

/-- **A cleanup** drops an entry of clusters without a limit. -/
theorem LastingBut.cleanup (h : LastingBut C qid q) (hu : Unique (C.kind .vm).keyOf q) :
    Lasting C ((C.kind .vm).cleanupQuota qid q) := by
  intro ids e' hne he'
  by_cases hid : ids = qid
  · subst hid
    cases hfind : find (C.kind .vm).keyOf q ids with
    | none =>
      have hsame : (C.kind .vm).cleanupQuota ids q = q := by
        unfold QuotaKind.cleanupQuota QuotaKind.getQuota
        rw [if_pos (show (C.kind .vm).isValid ids = true from rfl), hfind]
      rw [hsame, hfind] at he'
      exact absurd he' (by simp)
    | some e =>
      have hids := clusterIds_of_find hfind
      rw [QuotaKind.find_cleanupQuota hu rfl hfind] at he'
      split_ifs at he' with hneeded
      rw [← Option.some.inj he', QuotaKind.limited_opened]
      refine hneeded.resolve_left ?_
      rintro ⟨m, -, hnil, -⟩
      exact hne (hids.symm.trans hnil)
  · rw [(QuotaKind.cleanupQuota_cases hu qid).2.1 ids hid] at he'
    exact h ids e' hne hid he'

/-- **New limits of virtual machines**, when they are accepted. -/
theorem lasting_vmSet (pools : QuotaPools) (vas : List QuotaLimits) (htidy : ClusterTidy C q)
    (h : Lasting C q) (hok : vmSet C pools vas q = (none, q')) : Lasting C q' := by
  induction vas generalizing q with
  | nil =>
    rw [← (Prod.mk.inj hok).2]
    exact h
  | cons va vas ih =>
    rw [vmSet] at hok
    dsimp only at hok
    cases hfind : find (C.kind .vm).keyOf q (joinIds (splitUnique va.clusterIds)) with
    | none =>
      rw [hfind] at hok
      dsimp only at hok
      cases hwrong : wrongCluster pools q (splitUnique va.clusterIds) with
      | some error =>
        rw [hwrong] at hok
        exact absurd (Prod.mk.inj hok).1 (by simp)
      | none =>
        rw [hwrong] at hok
        dsimp only at hok
        cases hnew : (C.kind .vm).newQuota
            { va with clusterIds := joinIds (splitUnique va.clusterIds) } with
        | none =>
          rw [hnew] at hok
          exact absurd (Prod.mk.inj hok).1 (by simp)
        | some nq =>
          rw [hnew] at hok
          dsimp only at hok
          obtain ⟨-, hids, hused⟩ := QuotaKind.newQuota_fields hnew
          dsimp only at hids
          rw [← hids] at hfind hok
          have hclusters := wrongCluster_eq_none hwrong
          have htidy' : ClusterTidy C (q ++ [nq]) := by
            refine htidy.concat hfind fun c hc => ?_
            rw [hids] at hc
            exact (hclusters c (TextList.mem_splitUnique_joinIds
              (fun c' hc' => (hclusters c' hc').1) hc)).2
          have hconcat : LastingBut C nq.clusterIds (q ++ [nq]) := by
            intro ids e hne hid he
            rw [find_concat, keyOf_vm, if_neg (Ne.symm hid), Option.or_none] at he
            exact h ids e hne he
          have hrec : KeepsLimits C (q ++ [nq]) (if nq.clusterIds ≠ [] then
              recomputeClusters C pools { va with clusterIds := nq.clusterIds } nq.clusterIds (q ++ [nq])
              else q ++ [nq]) := by
            split_ifs
            · exact keepsLimits_foldl _
            · exact fun ids e he => ⟨e, he, Iff.rfl⟩
          have hone := htidy'.newEntry hfind hused pools
            { va with clusterIds := nq.clusterIds }
          exact ih (hone.tidy.cleanup nq.clusterIds).tidy
            ((hconcat.keeps hrec).cleanup hone.tidy.unique) hok
    | some e =>
      rw [hfind] at hok
      dsimp only at hok
      split_ifs at hok
      · have hlimits := htidy.limits { va with clusterIds := joinIds (splitUnique va.clusterIds) }
          (joinIds (splitUnique va.clusterIds))
        refine ih (hlimits.tidy.cleanup _).tidy (LastingBut.cleanup ?_ hlimits.tidy.unique) hok
        intro ids e' hne hid he'
        rw [find_modify fun e => QuotaKind.keyOf_updateLimits _ e, if_neg hid] at he'
        exact h ids e' hne he'
      · exact absurd (Prod.mk.inj hok).1 (by simp)

/-! ## Charges and releases -/

theorem lasting_delList {l : List (Text × Usage)} (hu : Unique (C.kind .vm).keyOf q)
    (h : Lasting C q) : Lasting C ((C.kind .vm).delList l q) := by
  induction l generalizing q with
  | nil => exact h
  | cons c l ih =>
    refine ih (QuotaKind.unique_delQuota hu c.1 c.2) fun ids e' hne he' => ?_
    by_cases hid : ids = c.1
    · subst hid
      cases hfind : find (C.kind .vm).keyOf q c.1 with
      | none =>
        rw [QuotaKind.delQuota_of_none fun _ => hfind, hfind] at he'
        exact absurd he' (by simp)
      | some e =>
        rw [QuotaKind.find_delQuota_eq hu rfl hfind] at he'
        split_ifs at he'
        rw [← Option.some.inj he', QuotaKind.limited_opened, QuotaKind.limited_charge]
        exact h c.1 e hne hfind
    · rw [QuotaKind.find_delQuota_of_ne hu c.2 hid] at he'
      exact h ids e' hne he'

end ClusterQuota

/-! ## All the quotas -/

namespace Sound

variable {C : QuotasConf} {q q' : Quotas}

theorem check (h : Sound C q) {type : QuotaType} {t : QuotaTemplate} {defaults : Quotas}
    (hcheck : Quotas.quotaCheck C type t defaults q = (none, q')) : Sound C q' := by
  have happly := Quotas.quotaCheck_apply hcheck
  refine ⟨h.notDefault, fun n hn => ((h.tidy n hn).checkList (QuotaAccount.keyOf_fresh hn)
    (happly n)).1, (QuotaAccount.clusters_of_check h.clusters hcheck).1, ?_⟩
  exact (lasting_checkList h.lasting (Quotas.fits_chargesOf q type t .vm) (happly .vm)).1

theorem delOf (h : Sound C q) (n : QuotaName) (l : List (Text × Usage))
    (hvm : n = .vm → ClusterTidy C ((C.kind .vm).delList l (q .vm))) :
    Sound C (Quotas.delOf C n l q) := by
  refine ⟨h.notDefault, fun n' hn' => ?_, ?_, ?_⟩
  · by_cases hn : n' = n
    · subst hn
      rw [Quotas.delOf_self]
      exact (h.tidy n' hn').delList l
    · rw [Quotas.delOf_of_ne hn]
      exact h.tidy n' hn'
  · by_cases hn : n = .vm
    · subst hn
      rw [Quotas.delOf_self]
      exact hvm rfl
    · rw [Quotas.delOf_of_ne (Ne.symm hn)]
      exact h.clusters
  · by_cases hn : n = .vm
    · subst hn
      rw [Quotas.delOf_self]
      exact lasting_delList h.clusters.unique h.lasting
    · rw [Quotas.delOf_of_ne (Ne.symm hn)]
      exact h.lasting

theorem del (h : Sound C q) (type : QuotaType) (t : QuotaTemplate) :
    Sound C (Quotas.quotaDel C type t q) := by
  have hno : ∀ {n : QuotaName}, n ≠ .vm → ∀ {q : Quotas} {l : List (Text × Usage)}, n = .vm →
      ClusterTidy C ((C.kind .vm).delList l (q .vm)) := fun hn _ _ heq => absurd heq hn
  have hvm : ∀ {q : Quotas}, Sound C q → Sound C (Quotas.vmDel C t q) := fun hq =>
    hq.delOf .vm _ fun _ => (hq.clusters.del t).1
  cases type with
  | datastore =>
    unfold Quotas.quotaDel Quotas.datastoreDel
    dsimp only
    split_ifs
    · exact h
    · split
      · exact h
      · exact h.delOf .datastore _ (hno (by decide))
  | vm => exact hvm h
  | network => exact h.delOf .network _ (hno (by decide))
  | image => exact h.delOf .image _ (hno (by decide))
  | virtualMachine => exact (hvm (h.delOf .network _ (hno (by decide)))).delOf .image _ (hno (by decide))
  | virtualRouter => exact h.delOf .network _ (hno (by decide))

/-- A virtual machine is added to the entry of its cluster, and to the global one. -/
theorem add (h : Sound C q) (t : QuotaTemplate) :
    Sound C (Function.update q .vm (vmAdd C t (q .vm))) := by
  refine ⟨h.notDefault, fun n hn => ?_, ?_, ?_⟩
  · rw [Function.update_of_ne hn]
    exact h.tidy n hn
  · rw [Function.update_self]
    exact clusterTidy_vmAdd h.clusters t
  · rw [Function.update_self]
    intro ids e' hne he'
    obtain ⟨e, he, hiff⟩ := keepsLimits_vmAdd t ids e' he'
    exact hiff.mpr (h.lasting ids e hne he)

/-- Only quotas of virtual machines are for clusters. -/
theorem set (h : Sound C q) (pools : QuotaPools) {limits : QuotaName → List QuotaLimits}
    (hlimits : ∀ n, n ≠ .vm → ∀ va ∈ limits n, va.clusterIds = [])
    (hok : Quotas.set C pools limits q = (none, q')) : Sound C q' := by
  obtain ⟨hother, -⟩ := Quotas.set_apply (C := C) pools limits q
  rw [hok] at hother
  dsimp only at hother
  have htidy : ∀ n, n ≠ .vm → (C.kind n).Tidy (q' n) := by
    intro n hn
    rcases hother n hn with heq | heq
    · rw [heq]
      exact h.tidy n hn
    · rw [heq]
      exact ((h.tidy n hn).set (QuotaAccount.byCluster_eq_false hn) (hlimits n hn)).1
  have hset : ∃ q₁ : Quotas, q₁ .vm = q .vm ∧ vmSet C pools (limits .vm) (q₁ .vm) = (none, q' .vm) := by
    unfold Quotas.set at hok
    split at hok
    · exact absurd (Prod.mk.inj hok).1 (by simp)
    · rename_i q₁ hthree
      have hsame : q₁ .vm = q .vm := by
        have hchain := congrArg (fun r => r.2 .vm) hthree
        dsimp only at hchain
        rw [← hchain, Quotas.setOf_of_ne _ _ (by decide), Quotas.setOf_of_ne _ _ (by decide),
          Quotas.setOf_of_ne _ _ (by decide)]
      obtain ⟨herror, rfl⟩ := Prod.mk.inj hok
      refine ⟨q₁, hsame, ?_⟩
      rw [Function.update_self]
      exact Prod.ext herror rfl
  obtain ⟨q₁, hsame, hset⟩ := hset
  rw [hsame] at hset
  refine ⟨h.notDefault, htidy, ?_, lasting_vmSet pools (limits .vm) h.clusters h.lasting hset⟩
  have hupdated := (h.clusters.set pools (limits .vm)).tidy
  rw [hset] at hupdated
  exact hupdated

end Sound

/-! ## Runs -/

/-- What can be done to the quotas of a user or of a group. -/
inductive QuotaChange where
  | check (type : QuotaType) (t : QuotaTemplate) (defaults : Quotas)
  | del (type : QuotaType) (t : QuotaTemplate)
  | add (t : QuotaTemplate)
  | set (pools : QuotaPools) (limits : QuotaName → List QuotaLimits)

/-- A check that succeeds, any deletion, any addition of a virtual machine, or a change of limits that
succeeds: what fails is not written to the database. -/
def changeQuotas (C : QuotasConf) (q : Quotas) : QuotaChange → Option Quotas
  | .check type t defaults =>
    match Quotas.quotaCheck C type t defaults q with
    | (none, q') => some q'
    | (some _, _) => none
  | .del type t => some (Quotas.quotaDel C type t q)
  | .add t => some (Function.update q .vm (vmAdd C t (q .vm)))
  | .set pools limits =>
    match Quotas.set C pools limits q with
    | (none, q') => some q'
    | (some _, _) => none

/-- Only quotas of virtual machines are for clusters. -/
def PlainChange (_ : Quotas) : QuotaChange → Prop
  | .set _ limits => ∀ n, n ≠ .vm → ∀ va ∈ limits n, va.clusterIds = []
  | _ => True

/-- A user or a group without quotas. -/
theorem sound_nil {C : QuotasConf} (h : C.isDefault = false) : Sound C fun _ => [] :=
  ⟨h, fun _ _ => ⟨List.nodup_nil, fun _ he => absurd he List.not_mem_nil⟩, clusterTidy_nil C,
    fun _ _ _ he => absurd he (by simp [find_nil])⟩

theorem Sound.change {C : QuotasConf} {q q' : Quotas} (h : Sound C q) {change : QuotaChange}
    (hplain : PlainChange q change) (hstep : changeQuotas C q change = some q') : Sound C q' := by
  cases change with
  | check type t defaults =>
    unfold changeQuotas at hstep
    dsimp only at hstep
    split at hstep
    · rename_i q₁ hcheck
      rw [← Option.some.inj hstep]
      exact h.check hcheck
    · exact absurd hstep (by simp)
  | del type t =>
    rw [← Option.some.inj hstep]
    exact h.del type t
  | add t =>
    rw [← Option.some.inj hstep]
    exact h.add t
  | set pools limits =>
    unfold changeQuotas at hstep
    dsimp only at hstep
    split at hstep
    · rename_i q₁ hset
      rw [← Option.some.inj hstep]
      exact h.set pools hplain hset
    · exact absurd hstep (by simp)

/-- **All the states that the quotas of a user or of a group reach are sound.** -/
theorem quotas_sound_of_run {C : QuotasConf} {q : Quotas} (h : C.isDefault = false)
    (hrun : Transition.Reach (changeQuotas C) PlainChange (fun _ => []) q) : Sound C q :=
  hrun.inv (sound_nil h) fun _ _ _ hsound hplain hstep => hsound.change hplain hstep

/-- A limit for the cluster 0, a machine that is charged, one that is added and one that is deleted. -/
def soundRun : List QuotaChange :=
  [.set QuotaAccount.onePool (QuotaAccount.cpuLimit "0" (some 8)),
    .check .vm (QuotaAccount.vmOf 2) (fun _ => []), .add (QuotaAccount.vmOf 3),
    .del .vm (QuotaAccount.vmOf 1)]

theorem plain_soundRun : ∀ e ∈ soundRun, ∀ q, PlainChange q e := by
  intro e he q
  simp only [soundRun, List.mem_cons, List.not_mem_nil, or_false] at he
  rcases he with rfl | rfl | rfl | rfl
  · intro n hn va hva
    cases n with
    | vm => exact absurd rfl hn
    | _ => exact absurd hva List.not_mem_nil
  · trivial
  · trivial
  · trivial

theorem isSome_soundRun : (Transition.runEvents (changeQuotas QuotaAccount.conf) (fun _ => [])
    soundRun).isSome = true := by
  decide +kernel

theorem quotas_sound_charged :
    ∃ q, Transition.runEvents (changeQuotas QuotaAccount.conf) (fun _ => []) soundRun = some q ∧
      (q .vm).map (fun e => (e.clusterIds, e.used "CPU".toList)) = [("0".toList, 4), ([], 4)] ∧
        Sound QuotaAccount.conf q := by
  have hused : (((Transition.runEvents (changeQuotas QuotaAccount.conf) (fun _ => []) soundRun).get
      isSome_soundRun) .vm).map (fun e => (e.clusterIds, e.used "CPU".toList)) =
        [("0".toList, 4), ([], 4)] := by
    decide +kernel
  obtain ⟨q, hq⟩ := Option.isSome_iff_exists.mp isSome_soundRun
  rw [Option.get_of_eq_some _ hq] at hused
  exact ⟨q, hq, hused, quotas_sound_of_run rfl
    ((Transition.reach_of_runEvents soundRun plain_soundRun hq).mono fun q _ h => h q)⟩
