/-
# What a quota check does to the usage

A check that succeeds adds exactly the amounts of its request to the entries it charges
(`quotaCheck_usage`).  The static check of a user and a group writes the quotas of the user before the
group is asked, and it does not take them back: a rejected request changes nothing exactly when it is
not the group alone that rejects it (`unchanged_iff`).
-/
import OpenNebula.Quota

/-! ## Entries -/

namespace QuotaEntry

variable {metrics : List Metric} {req : Usage} {e : QuotaEntry} {m : Metric}

theorem charge_cons (a : Metric) :
    charge (a :: metrics) req e = charge metrics req (e.addToQuota a (req.amount a)) := by
  rw [charge, List.foldl_cons]
  cases h : req a with
  | none =>
    rw [Usage.amount, h, Option.getD_none, addToQuota, add_zero, Function.update_eq_self]
    rfl
  | some num =>
    rw [Usage.amount, h, Option.getD_some]
    rfl

theorem used_addToQuota (a : Metric) (num : ℚ) :
    (e.addToQuota a num).used m = if m = a then e.used a + num else e.used m := by
  rw [← Function.update_apply]
  rfl

/-- A charge changes the usage only. -/
theorem charge_fields : (charge metrics req e).id = e.id ∧
    (charge metrics req e).clusterIds = e.clusterIds ∧ (charge metrics req e).limit = e.limit := by
  induction metrics generalizing e with
  | nil => exact ⟨rfl, rfl, rfl⟩
  | cons a metrics ih =>
    rw [charge_cons]
    exact ih

theorem used_charge_of_not_mem (h : m ∉ metrics) : (charge metrics req e).used m = e.used m := by
  induction metrics generalizing e with
  | nil => rfl
  | cons a metrics ih =>
    rw [List.mem_cons, not_or] at h
    rw [charge_cons, ih h.2, used_addToQuota, if_neg h.1]

/-- A charge adds its amounts. -/
theorem used_charge (hnodup : metrics.Nodup) (h : m ∈ metrics) :
    (charge metrics req e).used m = e.used m + req.amount m := by
  induction metrics generalizing e with
  | nil => exact absurd h List.not_mem_nil
  | cons a metrics ih =>
    rw [List.nodup_cons] at hnodup
    rw [charge_cons]
    rcases List.mem_cons.mp h with rfl | hmem
    · rw [used_charge_of_not_mem hnodup.1, used_addToQuota, if_pos rfl]
    · have hne : m ≠ a := fun heq => hnodup.1 (heq ▸ hmem)
      rw [ih hnodup.2 hmem, used_addToQuota, if_neg hne]

end QuotaEntry

/-! ## One quota -/

/-- The amount that a list of requests charges to a metric of an entry. -/
def amountOf (l : List (Text × Usage)) (id : Text) (m : Metric) : ℚ :=
  (l.map fun c => if c.1 = id then c.2.amount m else 0).sum

theorem amountOf_nil (id : Text) (m : Metric) : amountOf [] id m = 0 := rfl

theorem amountOf_cons (c : Text × Usage) (l : List (Text × Usage)) (id : Text) (m : Metric) :
    amountOf (c :: l) id m = (if c.1 = id then c.2.amount m else 0) + amountOf l id m := by
  rw [amountOf, List.map_cons, List.sum_cons]
  rfl

namespace QuotaKind

open KeyedList

variable {K : QuotaKind} {q q' defaults : List QuotaEntry} {qid i : Text} {req : Usage} {m : Metric}

/-- The usage of an entry; an entry that does not exist has none. -/
def usage (K : QuotaKind) (q : List QuotaEntry) (i : Text) (m : Metric) : ℚ :=
  ((find K.keyOf q i).map fun e => e.used m).getD 0

theorem usage_of_find {e : QuotaEntry} (h : find K.keyOf q i = some e) :
    K.usage q i m = e.used m := by
  rw [usage, h]
  rfl

theorem usage_of_find_none (h : find K.keyOf q i = none) : K.usage q i m = 0 := by
  rw [usage, h]
  rfl

theorem keyOf_congr {e e' : QuotaEntry} (hid : e'.id = e.id) (hids : e'.clusterIds = e.clusterIds) :
    K.keyOf e' = K.keyOf e := by
  rw [keyOf, keyOf, hid, hids]

theorem keyOf_charge (e : QuotaEntry) : K.keyOf (e.charge K.metrics req) = K.keyOf e :=
  keyOf_congr QuotaEntry.charge_fields.1 QuotaEntry.charge_fields.2.1

theorem usage_modify_charge (hfind : (find K.keyOf q qid).isSome) (hm : m ∈ K.metrics) :
    K.usage (modify K.keyOf (QuotaEntry.charge K.metrics req) qid q) i m =
      K.usage q i m + if qid = i then req.amount m else 0 := by
  obtain ⟨e, he⟩ := Option.isSome_iff_exists.mp hfind
  have hmod := find_modify (l := q) (k := qid) (i := i) (f := QuotaEntry.charge K.metrics req)
    (fun e => K.keyOf_charge e)
  by_cases hi : i = qid
  · subst hi
    rw [if_pos rfl, he, Option.map_some] at hmod
    rw [usage_of_find hmod, usage_of_find he, if_pos rfl, QuotaEntry.used_charge K.nodup hm]
  · rw [if_neg hi] at hmod
    rw [usage, hmod, if_neg (Ne.symm hi), add_zero]
    rfl

/-- The entry that a check makes is found by the identifier of the check, or the check finds one. -/
def Fits (K : QuotaKind) (q : List QuotaEntry) (qid : Text) : Prop :=
  K.keyOf (QuotaEntry.fresh qid) = qid ∨ (find K.keyOf q qid).isSome

/-- The two ways in which a check succeeds. -/
theorem checkQuota_cases (h : K.checkQuota qid req defaults q = (none, q')) :
    K.isValid qid = true ∧
      ((find K.keyOf q qid).isSome ∧ q' = modify K.keyOf (QuotaEntry.charge K.metrics req) qid q ∨
        find K.keyOf q qid = none ∧ q' = q ++ [(QuotaEntry.fresh qid).charge K.metrics req]) := by
  unfold checkQuota getQuota at h
  by_cases hvalid : K.isValid qid = true
  · rw [if_pos hvalid] at h
    refine ⟨hvalid, ?_⟩
    cases hfind : find K.keyOf q qid with
    | none =>
      rw [hfind] at h
      dsimp only at h
      split at h
      · exact absurd (Prod.mk.inj h).1 (by simp)
      · exact Or.inr ⟨rfl, (Prod.mk.inj h).2.symm⟩
    | some e =>
      rw [hfind] at h
      dsimp only at h
      split at h
      · exact absurd (Prod.mk.inj h).1 (by simp)
      · exact Or.inl ⟨rfl, (Prod.mk.inj h).2.symm⟩
  · rw [if_neg hvalid] at h
    exact absurd (Prod.mk.inj h).1 (by simp)

/-- What is found after a check that succeeds. -/
theorem find_checkQuota (h : K.checkQuota qid req defaults q = (none, q')) (hfits : K.Fits q qid) :
    find K.keyOf q' i = if i = qid then
        some (((find K.keyOf q qid).getD (QuotaEntry.fresh qid)).charge K.metrics req)
      else find K.keyOf q i := by
  obtain ⟨-, ⟨hsome, rfl⟩ | ⟨hnone, rfl⟩⟩ := checkQuota_cases h
  · rw [find_modify fun e => K.keyOf_charge e]
    obtain ⟨e, he⟩ := Option.isSome_iff_exists.mp hsome
    rw [he]
    rfl
  · have hkey : K.keyOf ((QuotaEntry.fresh qid).charge K.metrics req) = qid := by
      rw [keyOf_charge]
      refine hfits.resolve_right ?_
      rw [hnone]
      exact Bool.false_ne_true
    rw [find_concat, hkey]
    by_cases hi : i = qid
    · rw [if_pos hi, if_pos hi.symm, hi, hnone]
      rfl
    · rw [if_neg hi, if_neg (Ne.symm hi), Option.or_none]

/-- **A check adds the request to its entry.** -/
theorem usage_checkQuota (h : K.checkQuota qid req defaults q = (none, q')) (hfits : K.Fits q qid)
    (hm : m ∈ K.metrics) :
    K.usage q' i m = K.usage q i m + if qid = i then req.amount m else 0 := by
  have hfind := find_checkQuota (i := i) h hfits
  by_cases hi : i = qid
  · subst hi
    rw [if_pos rfl] at hfind
    rw [usage_of_find hfind, QuotaEntry.used_charge K.nodup hm, if_pos rfl]
    cases hold : find K.keyOf q i with
    | none =>
      rw [usage_of_find_none hold]
      rfl
    | some e =>
      rw [usage_of_find hold]
      rfl
  · rw [if_neg hi] at hfind
    rw [usage, hfind, if_neg (Ne.symm hi), add_zero]
    rfl

theorem Fits.checkQuota (h : K.checkQuota qid req defaults q = (none, q')) (hfits : K.Fits q qid)
    (hi : K.Fits q i) : K.Fits q' i := by
  refine hi.imp_right fun hsome => ?_
  rw [find_checkQuota h hfits]
  split_ifs
  · rfl
  · exact hsome

/-- **A loop of checks adds its requests.** -/
theorem usage_checkList {l : List (Text × Usage)} (h : K.checkList defaults l q = (none, q'))
    (hfits : ∀ c ∈ l, K.Fits q c.1) (hm : m ∈ K.metrics) :
    K.usage q' i m = K.usage q i m + amountOf l i m := by
  induction l generalizing q with
  | nil =>
    rw [amountOf_nil, add_zero, (Prod.mk.inj h).2]
  | cons c l ih =>
    rw [checkList] at h
    cases hcheck : K.checkQuota c.1 c.2 defaults q with
    | mk error q₁ =>
      rw [hcheck] at h
      cases error with
      | some error => exact absurd (Prod.mk.inj h).1 (by simp)
      | none =>
        have hc := hfits c List.mem_cons_self
        have htail : ∀ c' ∈ l, K.Fits q₁ c'.1 := fun c' hc' =>
          Fits.checkQuota hcheck hc (hfits c' (List.mem_cons_of_mem c hc'))
        rw [ih h htail, usage_checkQuota hcheck hc hm, amountOf_cons, add_assoc]

end QuotaKind

/-! ## All the quotas -/

namespace Quotas

open KeyedList

variable {C : QuotasConf} {defaults q q' : Quotas} {type : QuotaType} {t : QuotaTemplate}
  {n : QuotaName} {m : Metric}

/-- The usage of an entry of one of the four quotas. -/
def usage (C : QuotasConf) (q : Quotas) (n : QuotaName) (id : Text) (m : Metric) : ℚ :=
  (C.kind n).usage (q n) id m

/-- What a request charges to one of the four quotas. -/
def chargesOf (C : QuotasConf) (q : Quotas) (type : QuotaType) (t : QuotaTemplate) (n : QuotaName) :
    List (Text × Usage) :=
  match type, n with
  | .datastore, .datastore =>
    match t.value "SIZE".toList with
    | some size => [(t.datastore, datastoreRequest t size)]
    | none => []
  | .network, .network | .virtualMachine, .network => networkCharges false t
  | .virtualRouter, .network => networkCharges true t
  | .image, .image | .virtualMachine, .image => imageCharges t
  | .vm, .vm | .virtualMachine, .vm => vmCharges C (q .vm) t
  | _, _ => []

theorem fits_of_ne_vm (h : n ≠ .vm) (l : List QuotaEntry) (id : Text) : (C.kind n).Fits l id := by
  cases n with
  | vm => exact absurd rfl h
  | datastore | network | image => exact Or.inl rfl

theorem mem_vmCharges {l : List QuotaEntry} {c : Text × Usage} (h : c ∈ vmCharges C l t) :
    c.2 = vmRequest C t ∧ (getQuotaId t l = some c.1 ∨ c.1 = [] ∧ t.skipGlobalQuota = false) := by
  rcases List.mem_append.mp h with hids | hglobal
  · cases hid : getQuotaId t l with
    | none =>
      rw [hid] at hids
      exact absurd hids List.not_mem_nil
    | some ids =>
      rw [hid] at hids
      rw [List.mem_singleton.mp hids]
      exact ⟨rfl, Or.inl rfl⟩
  · split_ifs at hglobal with hskip
    · exact absurd hglobal List.not_mem_nil
    · rw [List.mem_singleton.mp hglobal]
      exact ⟨rfl, Or.inr ⟨rfl, Bool.not_eq_true _ ▸ hskip⟩⟩

/-- The entry of a cluster has the cluster. -/
theorem mem_of_getQuotaId {l : List QuotaEntry} {ids : Text} (h : getQuotaId t l = some ids) :
    ∃ cluster e, t.clusterId = some cluster ∧ e ∈ l ∧ e.clusterIds = ids ∧
      cluster ∈ splitUnique ids := by
  unfold getQuotaId at h
  cases hc : t.clusterId with
  | none =>
    rw [hc] at h
    exact absurd h (by simp)
  | some cluster =>
    rw [hc] at h
    obtain ⟨e, he, rfl⟩ := Option.map_eq_some_iff.mp h
    exact ⟨cluster, e, rfl, List.mem_of_find?_eq_some he, rfl, by simpa using List.find?_some he⟩

theorem fits_vmCharges (l : List QuotaEntry) :
    ∀ c ∈ vmCharges C l t, (C.kind .vm).Fits l c.1 := by
  intro c hc
  rcases (mem_vmCharges hc).2 with hids | ⟨hglobal, -⟩
  · obtain ⟨_, e, -, he, hids', -⟩ := mem_of_getQuotaId hids
    refine Or.inr ?_
    rw [find, List.find?_isSome]
    exact ⟨e, he, decide_eq_true hids'⟩
  · rw [hglobal]
    exact Or.inl rfl

theorem fits_chargesOf (q : Quotas) (type : QuotaType) (t : QuotaTemplate) (n : QuotaName) :
    ∀ c ∈ chargesOf C q type t n, (C.kind n).Fits (q n) c.1 := by
  intro c hc
  by_cases hn : n = .vm
  · subst hn
    cases type with
    | vm | virtualMachine => exact fits_vmCharges (q .vm) c hc
    | datastore | network | image | virtualRouter => exact absurd hc List.not_mem_nil
  · exact fits_of_ne_vm hn _ _

/-- The check of one of the four quotas. -/
theorem checkOf_apply {l : List (Text × Usage)} (h : checkOf C n l defaults q = (none, q')) :
    (C.kind n).checkList (defaults n) l (q n) = (none, q' n) ∧ ∀ n', n' ≠ n → q' n' = q n' := by
  obtain ⟨herror, rfl⟩ := Prod.mk.inj h
  constructor
  · rw [Function.update_self]
    exact Prod.ext herror rfl
  · intro n' hne
    exact Function.update_of_ne hne _ _

/-- A request that charges one of the four quotas. -/
theorem checkOf_apply_single {l : List (Text × Usage)} (h : checkOf C n l defaults q = (none, q'))
    {charges : QuotaName → List (Text × Usage)} (hself : charges n = l)
    (hother : ∀ n', n' ≠ n → charges n' = []) (n' : QuotaName) :
    (C.kind n').checkList (defaults n') (charges n') (q n') = (none, q' n') := by
  obtain ⟨hcheck, hframe⟩ := checkOf_apply h
  by_cases hn : n' = n
  · subst hn
    rw [hself]
    exact hcheck
  · rw [hother n' hn, hframe n' hn]
    rfl

/-- The check of a datastore charges its size and its images. -/
theorem datastoreCheck_cases (h : datastoreCheck C t defaults q = (none, q')) :
    ∃ size, t.datastore ≠ [] ∧ t.value "SIZE".toList = some size ∧ 0 ≤ size ∧
      checkOf C .datastore [(t.datastore, datastoreRequest t size)] defaults q = (none, q') := by
  unfold datastoreCheck at h
  split_ifs at h with hds
  · exact absurd (Prod.mk.inj h).1 (by simp)
  · cases hsize : t.value "SIZE".toList with
    | none =>
      rw [hsize] at h
      exact absurd (Prod.mk.inj h).1 (by simp)
    | some size =>
      rw [hsize] at h
      dsimp only at h
      split_ifs at h with hneg
      · exact absurd (Prod.mk.inj h).1 (by simp)
      · exact ⟨size, hds, rfl, not_lt.mp hneg, h⟩

/-- The check of a virtual machine is the one of its networks, its capacity and its images. -/
theorem virtualMachineCheck_cases (h : quotaCheck C .virtualMachine t defaults q = (none, q')) :
    ∃ q₁ q₂, checkOf C .network (networkCharges false t) defaults q = (none, q₁) ∧
      vmCheck C t defaults q₁ = (none, q₂) ∧
      checkOf C .image (imageCharges t) defaults q₂ = (none, q') := by
  unfold quotaCheck at h
  dsimp only at h
  cases hnet : checkOf C .network (networkCharges false t) defaults q with
  | mk error q₁ =>
    rw [hnet] at h
    cases error with
    | some error => exact absurd (Prod.mk.inj h).1 (by simp)
    | none =>
      dsimp only at h
      cases hvm : vmCheck C t defaults q₁ with
      | mk error q₂ =>
        rw [hvm] at h
        cases error with
        | some error => exact absurd (Prod.mk.inj h).1 (by simp)
        | none =>
          dsimp only at h
          cases himage : checkOf C .image (imageCharges t) defaults q₂ with
          | mk error q₃ =>
            rw [himage] at h
            cases error with
            | some error => exact absurd (Prod.mk.inj h).1 (by simp)
            | none => exact ⟨q₁, q₂, rfl, hvm, himage.trans h⟩

/-- **A check is a loop over what it charges**, in each of the four quotas. -/
theorem quotaCheck_apply (h : quotaCheck C type t defaults q = (none, q')) (n : QuotaName) :
    (C.kind n).checkList (defaults n) (chargesOf C q type t n) (q n) = (none, q' n) := by
  cases type with
  | datastore =>
    obtain ⟨size, -, hsize, -, hcheck⟩ := datastoreCheck_cases h
    refine checkOf_apply_single hcheck ?_ ?_ n
    · unfold chargesOf
      dsimp only
      rw [hsize]
    · intro n' hne
      cases n' with
      | datastore => exact absurd rfl hne
      | network | image | vm => rfl
  | network | virtualRouter =>
    refine checkOf_apply_single h rfl ?_ n
    intro n' hne
    cases n' with
    | network => exact absurd rfl hne
    | datastore | image | vm => rfl
  | image =>
    refine checkOf_apply_single h rfl ?_ n
    intro n' hne
    cases n' with
    | image => exact absurd rfl hne
    | datastore | network | vm => rfl
  | vm =>
    refine checkOf_apply_single h rfl ?_ n
    intro n' hne
    cases n' with
    | vm => exact absurd rfl hne
    | datastore | network | image => rfl
  | virtualMachine =>
    obtain ⟨q₁, q₂, hnet, hvm, himage⟩ := virtualMachineCheck_cases h
    obtain ⟨hcheck₁, hframe₁⟩ := checkOf_apply hnet
    obtain ⟨hcheck₂, hframe₂⟩ := checkOf_apply hvm
    obtain ⟨hcheck₃, hframe₃⟩ := checkOf_apply himage
    cases n with
    | datastore =>
      rw [hframe₃ _ (by decide), hframe₂ _ (by decide), hframe₁ _ (by decide)]
      rfl
    | network =>
      rw [hframe₃ _ (by decide), hframe₂ _ (by decide)]
      exact hcheck₁
    | vm =>
      rw [hframe₁ .vm (by decide)] at hcheck₂
      rw [hframe₃ _ (by decide)]
      exact hcheck₂
    | image =>
      rw [hframe₂ .image (by decide), hframe₁ .image (by decide)] at hcheck₃
      exact hcheck₃

/-- **A check adds exactly its request.** -/
theorem quotaCheck_usage (h : quotaCheck C type t defaults q = (none, q')) (n : QuotaName) (id : Text)
    (hm : m ∈ (C.kind n).metrics) :
    usage C q' n id m = usage C q n id m + amountOf (chargesOf C q type t n) id m :=
  QuotaKind.usage_checkList (quotaCheck_apply h n) (fits_chargesOf q type t n) hm

end Quotas

/-! ## Rejected requests -/

namespace QuotaStore

variable {C : QuotasConf} {du dg : Quotas} {type : QuotaType} {uid gid : ℤ} {t : QuotaTemplate}
  {s : QuotaStore}

/-- The usage of a user or of a group. -/
def usageOf (C : QuotasConf) (o : Option Quotas) (n : QuotaName) (id : Text) (m : Metric) : ℚ :=
  o.elim 0 fun q => q.usage C n id m

/-- The usage of all the accounts is the same, in every entry. -/
def SameUsage {α : Type*} (C : QuotasConf) (s s' : α → Option Quotas) : Prop :=
  ∀ a n id m, m ∈ (C.kind n).metrics → usageOf C (s' a) n id m = usageOf C (s a) n id m

/-- The request has an amount for the quotas. -/
def Amounts (C : QuotasConf) (q : Quotas) (type : QuotaType) (t : QuotaTemplate) : Prop :=
  ∃ n id m, m ∈ (C.kind n).metrics ∧ amountOf (q.chargesOf C type t n) id m ≠ 0

/-- The quotas of the user take the request and the ones of the group reject it. -/
def GroupRejects (C : QuotasConf) (du dg : Quotas) (type : QuotaType) (uid gid : ℤ)
    (t : QuotaTemplate) (s : QuotaStore) : Prop :=
  ∃ user group, limited s.users uid = some user ∧ limited s.groups gid = some group ∧
    (Quotas.quotaCheck C type t du user).1 = none ∧ (Quotas.quotaCheck C type t dg group).1 ≠ none ∧
    Amounts C user type t

theorem sameUsage_refl {α : Type*} (C : QuotasConf) (s : α → Option Quotas) : SameUsage C s s :=
  fun _ _ _ _ _ => rfl

theorem eq_of_limited {pool : ℤ → Option Quotas} {id : ℤ} {q : Quotas}
    (h : limited pool id = some q) : pool id = some q := by
  unfold limited at h
  split_ifs at h
  exact h

/-- The new quotas of a user have the same usage when the request has no amounts. -/
theorem sameUsage_update_iff {user user' : Quotas} (huser : limited s.users uid = some user)
    (hcheck : Quotas.quotaCheck C type t du user = (none, user')) :
    SameUsage C s.users (Function.update s.users uid (some user')) ↔ ¬ Amounts C user type t := by
  have hold := eq_of_limited huser
  constructor
  · rintro hsame ⟨n, id, m, hm, hne⟩
    have h := hsame uid n id m hm
    rw [Function.update_self, hold] at h
    have hadd := Quotas.quotaCheck_usage hcheck n id hm
    change Quotas.usage C user' n id m = Quotas.usage C user n id m at h
    rw [h] at hadd
    exact hne (left_eq_add.mp hadd)
  · intro hno x n id m hm
    by_cases hx : x = uid
    · subst hx
      have hzero : amountOf (user.chargesOf C type t n) id m = 0 := by
        by_contra hne
        exact hno ⟨n, id, m, hm, hne⟩
      have hadd := Quotas.quotaCheck_usage hcheck n id hm
      rw [hzero, add_zero] at hadd
      rw [Function.update_self, hold]
      exact hadd
    · rw [Function.update_of_ne hx]

/-- **Rejected requests.**  A request that is rejected changes no usage, unless the quotas of the user
have taken it and the ones of the group reject it. -/
theorem unchanged_iff (C : QuotasConf) (du dg : Quotas) (type : QuotaType) (uid gid : ℤ)
    (t : QuotaTemplate) (s : QuotaStore) :
    ((quotaCheck C du dg type uid gid t s).1.isSome →
      SameUsage C s.users (quotaCheck C du dg type uid gid t s).2.users ∧
        SameUsage C s.groups (quotaCheck C du dg type uid gid t s).2.groups) ↔
    ¬ GroupRejects C du dg type uid gid t s := by
  unfold quotaCheck
  dsimp only
  cases huser : limited s.users uid with
  | none =>
    -- Without quotas of the user there is nothing to take back.
    have hno : ¬ GroupRejects C du dg type uid gid t s := by
      rintro ⟨user, group, huser', -⟩
      exact absurd (huser.symm.trans huser') (by simp)
    refine iff_of_true (fun hsome => ?_) hno
    dsimp only at hsome ⊢
    cases hgroup : limited s.groups gid with
    | none => exact ⟨sameUsage_refl C _, sameUsage_refl C _⟩
    | some group =>
      rw [hgroup] at hsome
      dsimp only at hsome ⊢
      cases hcheck : Quotas.quotaCheck C type t dg group with
      | mk error group' =>
        rw [hcheck] at hsome
        cases error with
        | none => exact absurd hsome (by simp)
        | some error => exact ⟨sameUsage_refl C _, sameUsage_refl C _⟩
  | some user =>
    dsimp only
    cases hcheck : Quotas.quotaCheck C type t du user with
    | mk error user' =>
      cases error with
      | some error =>
        have hno : ¬ GroupRejects C du dg type uid gid t s := by
          rintro ⟨user₀, group, huser', -, hnone, -⟩
          rw [← Option.some.inj (huser.symm.trans huser'), hcheck] at hnone
          exact absurd hnone (by simp)
        exact iff_of_true (fun _ => ⟨sameUsage_refl C _, sameUsage_refl C _⟩) hno
      | none =>
        dsimp only
        cases hgroup : limited s.groups gid with
        | none =>
          refine iff_of_true (fun hsome => absurd hsome (by simp)) ?_
          rintro ⟨user₀, group, -, hgroup', -⟩
          exact absurd (hgroup.symm.trans hgroup') (by simp)
        | some group =>
          dsimp only
          cases hgcheck : Quotas.quotaCheck C type t dg group with
          | mk error group' =>
            cases error with
            | none =>
              refine iff_of_true (fun hsome => absurd hsome (by simp)) ?_
              rintro ⟨user₀, group₀, -, hgroup', -, hreject, -⟩
              rw [← Option.some.inj (hgroup.symm.trans hgroup'), hgcheck] at hreject
              exact hreject rfl
            | some error =>
              -- The quotas of the user are written, and they stay.
              dsimp only
              rw [sameUsage_update_iff huser hcheck, and_iff_left (sameUsage_refl C s.groups)]
              refine ⟨fun h => ?_, fun h _ hamounts => h ?_⟩
              · rintro ⟨user₀, group₀, huser', -, -, -, hamounts⟩
                rw [← Option.some.inj (huser.symm.trans huser')] at hamounts
                exact h rfl hamounts
              · refine ⟨user, group, huser, hgroup, ?_, ?_, hamounts⟩
                · rw [hcheck]
                · rw [hgcheck]
                  exact Option.some_ne_none error

/-- A template with one interface on the network 5. -/
def oneNic : QuotaTemplate where
  datastore := []
  images := none
  clusterId := none
  skipGlobalQuota := false
  value := fun _ => none
  nics := [⟨"5".toList, false, false⟩]
  disks := []
  snapshots := []

/-- The configuration without generic metrics. -/
def plainConf : QuotasConf := ⟨false, [], by decide⟩

/-- No quotas. -/
def noQuotas : Quotas := fun _ => []

/-- The group may not use the network 5. -/
def closedNetwork : Quotas
  | .network => [⟨"5".toList, [], fun _ => 0, fun _ => 0⟩]
  | _ => []

/-- A user without limits in a group that may not use the network. -/
def closedGroup : QuotaStore :=
  ⟨fun _ => some noQuotas, fun _ => some closedNetwork⟩

/-- **A rejected request that is charged**: the group rejects the lease, and the user has it. -/
theorem charged_closedGroup :
    (quotaCheck plainConf noQuotas noQuotas .network 2 100 oneNic closedGroup).1.isSome ∧
      usageOf plainConf (closedGroup.users 2) .network "5".toList "LEASES".toList = 0 ∧
      usageOf plainConf ((quotaCheck plainConf noQuotas noQuotas .network 2 100 oneNic
        closedGroup).2.users 2) .network "5".toList "LEASES".toList = 1 := by
  refine ⟨?_, rfl, ?_⟩
  · decide +kernel
  · decide +kernel

end QuotaStore
