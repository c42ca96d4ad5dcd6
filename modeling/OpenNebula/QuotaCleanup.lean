/-
# Cleanup, deletions and limits of one quota

A deletion subtracts its request from the entry and then removes the entry if it is no longer needed.
An entry that is not a cluster quota is removed only when it has no usage, so the cleanup keeps the
usage (`usage_cleanupQuota`), a loop of deletions subtracts its requests when the usage covers them
(`usage_delList`), and new limits do not change the usage (`Tidy.set`).
-/
import OpenNebula.QuotaUsage

open KeyedList

/-! ## Cleanup and deletion -/

theorem Usage.amount_opposite (req : Usage) (m : Metric) : req.opposite.amount m = -req.amount m := by
  unfold Usage.amount Usage.opposite
  cases req m with
  | none => exact neg_zero.symm
  | some num => rfl

namespace QuotaKind

variable {K : QuotaKind} {q : List QuotaEntry} {qid i : Text} {req : Usage} {m : Metric}

/-- What a cleanup does to the entry it looks at: the entry stays with its usage, or it is removed. -/
theorem cleanupQuota_cases (hu : Unique K.keyOf q) (qid : Text) :
    Unique K.keyOf (K.cleanupQuota qid q) ∧
      (∀ i, i ≠ qid → find K.keyOf (K.cleanupQuota qid q) i = find K.keyOf q i) ∧
      ((∃ e', find K.keyOf (K.cleanupQuota qid q) qid = some e' ∧
          ∃ e, find K.keyOf q qid = some e ∧ e'.clusterIds = e.clusterIds ∧ e'.used = e.used) ∨
        find K.keyOf (K.cleanupQuota qid q) qid = none ∧
          ∀ e, find K.keyOf q qid = some e → e.clusterIds = [] → ∀ m ∈ K.metrics, e.used m = 0) := by
  unfold cleanupQuota getQuota
  cases hfind : find K.keyOf q qid with
  | none =>
    split_ifs
    · exact ⟨hu, fun _ _ => rfl, Or.inr ⟨hfind, by simp⟩⟩
    · exact ⟨hu, fun _ _ => rfl, Or.inr ⟨hfind, by simp⟩⟩
  | some e =>
    by_cases hvalid : K.isValid qid = true
    · rw [if_pos hvalid]
      dsimp only
      have hkeeps : ∀ e' : QuotaEntry,
          ((if e.clusterIds ≠ [] then K.openLimits else id) e').id = e'.id ∧
          ((if e.clusterIds ≠ [] then K.openLimits else id) e').clusterIds = e'.clusterIds ∧
          ((if e.clusterIds ≠ [] then K.openLimits else id) e').used = e'.used := by
        intro e'
        split_ifs
        · exact ⟨rfl, rfl, rfl⟩
        · exact ⟨rfl, rfl, rfl⟩
      generalize (if e.clusterIds ≠ [] then K.openLimits else id) = opened at hkeeps ⊢
      have hkey : ∀ e' : QuotaEntry, K.keyOf (opened e') = K.keyOf e' := fun e' =>
        keyOf_congr (hkeeps e').1 (hkeeps e').2.1
      split
      · refine ⟨hu.modify hkey, fun i hi => ?_, Or.inl ⟨opened e, ?_, e, rfl, ?_, ?_⟩⟩
        · rw [find_modify hkey, if_neg hi]
        · rw [find_modify hkey, if_pos rfl, hfind, Option.map_some]
        · exact (hkeeps e).2.1
        · exact (hkeeps e).2.2
      · rename_i hany
        refine ⟨hu.erase, fun i hi => ?_, Or.inr ⟨?_, ?_⟩⟩
        · rw [find_erase hu, if_neg hi]
        · rw [find_erase hu, if_pos rfl]
        · intro e' he' hplain m hm
          obtain rfl := Option.some.inj he'
          rw [List.any_eq_true, not_exists] at hany
          have hno := not_and.mp (hany m) hm
          rw [hplain] at hno
          have hboth : e.used m = 0 ∧ (opened e).limit m = K.implicitLimit e := by simpa using hno
          exact hboth.1
    · rw [if_neg hvalid]
      exact ⟨hu, fun _ _ => rfl, Or.inl ⟨e, hfind, e, rfl, rfl, rfl⟩⟩

/-- **A cleanup keeps the usage** of an entry that is not a cluster quota. -/
theorem usage_cleanupQuota (hu : Unique K.keyOf q)
    (hplain : ∀ e, find K.keyOf q qid = some e → e.clusterIds = []) (hm : m ∈ K.metrics) :
    K.usage (K.cleanupQuota qid q) i m = K.usage q i m := by
  obtain ⟨-, hframe, hself⟩ := cleanupQuota_cases hu qid
  by_cases hi : i = qid
  · subst hi
    rcases hself with ⟨e', he', e, he, -, hused⟩ | ⟨hnone, hzero⟩
    · rw [usage_of_find he', usage_of_find he, hused]
    · rw [usage_of_find_none hnone]
      cases hfind : find K.keyOf q i with
      | none => rw [usage_of_find_none hfind]
      | some e => rw [usage_of_find hfind, hzero e hfind (hplain e hfind) m hm]
  · rw [usage, usage, hframe i hi]

/-- What a deletion does to the list of the entries. -/
theorem delQuota_cases (q : List QuotaEntry) (qid : Text) (req : Usage) :
    K.delQuota qid req q = q ∧ (K.isValid qid = false ∨ find K.keyOf q qid = none) ∨
      (find K.keyOf q qid).isSome ∧ K.delQuota qid req q = K.cleanupQuota qid
        (modify K.keyOf (QuotaEntry.charge K.metrics req.opposite) qid q) := by
  unfold delQuota getQuota
  by_cases hvalid : K.isValid qid = true
  · rw [if_pos hvalid]
    cases hfind : find K.keyOf q qid with
    | none => exact Or.inl ⟨rfl, Or.inr rfl⟩
    | some e => exact Or.inr ⟨rfl, rfl⟩
  · rw [if_neg hvalid]
    exact Or.inl ⟨rfl, Or.inl (Bool.not_eq_true _ ▸ hvalid)⟩

theorem unique_delQuota (hu : Unique K.keyOf q) (qid : Text) (req : Usage) :
    Unique K.keyOf (K.delQuota qid req q) := by
  rcases delQuota_cases q qid req with ⟨heq, -⟩ | ⟨-, heq⟩
  · rw [heq]
    exact hu
  · rw [heq]
    exact (cleanupQuota_cases (hu.modify fun e => K.keyOf_charge e) qid).1

theorem find_delQuota_of_ne (hu : Unique K.keyOf q) (req : Usage) (hi : i ≠ qid) :
    find K.keyOf (K.delQuota qid req q) i = find K.keyOf q i := by
  rcases delQuota_cases q qid req with ⟨heq, -⟩ | ⟨-, heq⟩
  · rw [heq]
  · rw [heq, (cleanupQuota_cases (hu.modify fun e => K.keyOf_charge e) qid).2.1 i hi,
      find_modify fun e => K.keyOf_charge e, if_neg hi]

/-- An entry that is there after a deletion was there before it, with the amounts of the request. -/
theorem find_delQuota (hu : Unique K.keyOf q) {e' : QuotaEntry} (hvalid : K.isValid qid = true)
    (h : find K.keyOf (K.delQuota qid req q) qid = some e') :
    ∃ e, find K.keyOf q qid = some e ∧ e'.clusterIds = e.clusterIds ∧
      ∀ m ∈ K.metrics, e'.used m = e.used m - req.amount m := by
  rcases delQuota_cases q qid req with ⟨heq, hno | hno⟩ | ⟨hsome, heq⟩
  · exact absurd (hvalid.symm.trans hno) (by simp)
  · rw [heq, hno] at h
    exact absurd h (by simp)
  · obtain ⟨e, he⟩ := Option.isSome_iff_exists.mp hsome
    have hmod : find K.keyOf (modify K.keyOf (QuotaEntry.charge K.metrics req.opposite) qid q) qid =
        some (e.charge K.metrics req.opposite) := by
      rw [find_modify fun e => K.keyOf_charge e, if_pos rfl, he, Option.map_some]
    rw [heq] at h
    rcases (cleanupQuota_cases (hu.modify fun e => K.keyOf_charge e) qid).2.2 with
      ⟨e₁, he₁, e₂, he₂, hids, hused⟩ | ⟨hnone, -⟩
    · obtain rfl := Option.some.inj (he₁.symm.trans h)
      obtain rfl := Option.some.inj (hmod.symm.trans he₂)
      refine ⟨e, he, hids.trans QuotaEntry.charge_fields.2.1, fun m hm => ?_⟩
      rw [hused, QuotaEntry.used_charge K.nodup hm, Usage.amount_opposite, sub_eq_add_neg]
    · exact absurd (hnone.symm.trans h) (by simp)

/-- **A deletion subtracts the request**, unless the entry is a cluster quota; without an entry the
request has to be empty. -/
theorem usage_delQuota (hu : Unique K.keyOf q) (hvalid : K.isValid qid = true)
    (hplain : ∀ e, find K.keyOf q qid = some e → e.clusterIds = []) (hm : m ∈ K.metrics)
    (hzero : find K.keyOf q qid = none → req.amount m = 0) :
    K.usage (K.delQuota qid req q) i m = K.usage q i m - if qid = i then req.amount m else 0 := by
  rcases delQuota_cases q qid req with ⟨heq, hno | hno⟩ | ⟨hsome, heq⟩
  · exact absurd (hvalid.symm.trans hno) (by simp)
  · rw [heq, hzero hno, ite_self, sub_zero]
  · have hplain' : ∀ e, find K.keyOf (modify K.keyOf (QuotaEntry.charge K.metrics req.opposite) qid q)
        qid = some e → e.clusterIds = [] := by
      intro e' he'
      rw [find_modify fun e => K.keyOf_charge e, if_pos rfl] at he'
      obtain ⟨e, he, rfl⟩ := Option.map_eq_some_iff.mp he'
      rw [QuotaEntry.charge_fields.2.1]
      exact hplain e he
    rw [heq, usage_cleanupQuota (hu.modify fun e => K.keyOf_charge e) hplain' hm,
      usage_modify_charge hsome hm, Usage.amount_opposite, sub_eq_add_neg]
    congr 1
    split_ifs
    · rfl
    · exact neg_zero.symm

/-! ## Quotas without clusters -/

/-- No two entries have the same key, and no entry is a cluster quota. -/
structure Tidy (K : QuotaKind) (q : List QuotaEntry) : Prop where
  unique : Unique K.keyOf q
  plain : ∀ e ∈ q, e.clusterIds = []

theorem Tidy.of_find {q' : List QuotaEntry} (hu : Unique K.keyOf q')
    (h : ∀ i e', find K.keyOf q' i = some e' → e'.clusterIds = []) : K.Tidy q' :=
  ⟨hu, fun e he => h _ e (find_of_mem hu he)⟩

theorem Tidy.cleanupQuota (h : K.Tidy q) (qid : Text) : K.Tidy (K.cleanupQuota qid q) := by
  obtain ⟨hu, hframe, hself⟩ := cleanupQuota_cases h.unique qid
  refine Tidy.of_find hu fun i e' he' => ?_
  by_cases hi : i = qid
  · subst hi
    rcases hself with ⟨e₁, he₁, e, he, hids, -⟩ | ⟨hnone, -⟩
    · obtain rfl := Option.some.inj (he₁.symm.trans he')
      rw [hids]
      exact h.plain e (mem_of_find he)
    · exact absurd (hnone.symm.trans he') (by simp)
  · rw [hframe i hi] at he'
    exact h.plain e' (mem_of_find he')

theorem Tidy.usage_cleanupQuota (h : K.Tidy q) (qid : Text) (hm : m ∈ K.metrics) :
    K.usage (K.cleanupQuota qid q) i m = K.usage q i m :=
  QuotaKind.usage_cleanupQuota h.unique (fun e he => h.plain e (mem_of_find he)) hm

theorem Tidy.modify (h : K.Tidy q) {f : QuotaEntry → QuotaEntry} (hf : ∀ e, K.keyOf (f e) = K.keyOf e)
    (hids : ∀ e, (f e).clusterIds = e.clusterIds) (qid : Text) : K.Tidy (modify K.keyOf f qid q) := by
  refine Tidy.of_find (h.unique.modify hf) fun i e' he' => ?_
  rw [find_modify hf] at he'
  split_ifs at he'
  · obtain ⟨e, he, rfl⟩ := Option.map_eq_some_iff.mp he'
    rw [hids]
    exact h.plain e (mem_of_find he)
  · exact h.plain e' (mem_of_find he')

theorem Tidy.concat (h : K.Tidy q) {e : QuotaEntry} (hnew : find K.keyOf q (K.keyOf e) = none)
    (hids : e.clusterIds = []) : K.Tidy (q ++ [e]) := by
  refine ⟨h.unique.concat hnew, fun e' he' => ?_⟩
  rcases List.mem_append.mp he' with hmem | hmem
  · exact h.plain e' hmem
  · rw [List.mem_singleton.mp hmem, hids]

theorem Tidy.delQuota (h : K.Tidy q) (qid : Text) (req : Usage) : K.Tidy (K.delQuota qid req q) := by
  rcases delQuota_cases q qid req with ⟨heq, -⟩ | ⟨-, heq⟩
  · rw [heq]
    exact h
  · rw [heq]
    exact (h.modify (fun e => K.keyOf_charge e) (fun e => QuotaEntry.charge_fields.2.1) qid).cleanupQuota
      qid

theorem Tidy.checkQuota {defaults q' : List QuotaEntry} (h : K.Tidy q)
    (hcheck : K.checkQuota qid req defaults q = (none, q'))
    (hkey : K.keyOf (QuotaEntry.fresh qid) = qid) : K.Tidy q' := by
  obtain ⟨-, ⟨-, rfl⟩ | ⟨hnone, rfl⟩⟩ := checkQuota_cases hcheck
  · exact h.modify (fun e => K.keyOf_charge e) (fun e => QuotaEntry.charge_fields.2.1) qid
  · refine h.concat ?_ QuotaEntry.charge_fields.2.1
    rw [keyOf_charge, hkey]
    exact hnone

theorem Tidy.checkList {defaults q' : List QuotaEntry} {l : List (Text × Usage)} (h : K.Tidy q)
    (hkey : ∀ id, K.keyOf (QuotaEntry.fresh id) = id)
    (hcheck : K.checkList defaults l q = (none, q')) :
    K.Tidy q' ∧ ∀ c ∈ l, K.isValid c.1 = true := by
  induction l generalizing q with
  | nil =>
    rw [← (Prod.mk.inj hcheck).2]
    exact ⟨h, by simp⟩
  | cons c l ih =>
    rw [QuotaKind.checkList] at hcheck
    cases hone : K.checkQuota c.1 c.2 defaults q with
    | mk error q₁ =>
      rw [hone] at hcheck
      cases error with
      | some error => exact absurd (Prod.mk.inj hcheck).1 (by simp)
      | none =>
        obtain ⟨htidy, hvalid⟩ := ih (h.checkQuota hone (hkey c.1)) hcheck
        refine ⟨htidy, fun c' hc' => ?_⟩
        rcases List.mem_cons.mp hc' with rfl | hmem
        · exact (checkQuota_cases hone).1
        · exact hvalid c' hmem

/-! ## Loops of deletions -/

/-- A deletion without an identifier does nothing. -/
theorem delList_filter (hempty : K.isValid [] = false) (l : List (Text × Usage))
    (q : List QuotaEntry) : K.delList l q = K.delList (l.filter fun c => !c.1.isEmpty) q := by
  induction l generalizing q with
  | nil => rfl
  | cons c l ih =>
    obtain ⟨id, req⟩ := c
    rw [delList, ih]
    cases id with
    | nil =>
      have heq : K.delQuota [] req q = q := by
        unfold delQuota getQuota
        rw [if_neg (by rw [hempty]; exact Bool.false_ne_true)]
      rw [heq, List.filter_cons_of_neg (by simp)]
    | cons a id =>
      rw [List.filter_cons_of_pos (by simp)]
      rfl

theorem amountOf_nonneg {l : List (Text × Usage)} (h : ∀ c ∈ l, c.1 = i → 0 ≤ c.2.amount m) :
    0 ≤ amountOf l i m := by
  refine List.sum_nonneg fun x hx => ?_
  obtain ⟨c, hc, rfl⟩ := List.mem_map.mp hx
  split_ifs with hi
  · exact h c hc hi
  · exact le_refl 0

/-- **A loop of deletions subtracts its requests** from an entry whose usage covers them. -/
theorem usage_delList {l : List (Text × Usage)} (hu : Unique K.keyOf q)
    (hvalid : ∀ c ∈ l, K.isValid c.1 = true)
    (hplain : ∀ e, find K.keyOf q i = some e → e.clusterIds = [])
    (hnonneg : ∀ c ∈ l, c.1 = i → ∀ m ∈ K.metrics, 0 ≤ c.2.amount m)
    (hcover : ∀ m ∈ K.metrics, amountOf l i m ≤ K.usage q i m) :
    ∀ m ∈ K.metrics, K.usage (K.delList l q) i m = K.usage q i m - amountOf l i m := by
  induction l generalizing q with
  | nil => exact fun m _ => (sub_zero _).symm
  | cons c l ih =>
    have hvalid' := fun c' hc' => hvalid c' (List.mem_cons_of_mem c hc')
    have hnonneg' := fun c' hc' => hnonneg c' (List.mem_cons_of_mem c hc')
    have hu' := unique_delQuota hu c.1 c.2
    have hrest : ∀ m ∈ K.metrics, 0 ≤ amountOf l i m := fun m hm =>
      amountOf_nonneg fun c' hc' hi => hnonneg' c' hc' hi m hm
    have hdel : ∀ m ∈ K.metrics, K.usage (K.delQuota c.1 c.2 q) i m =
        K.usage q i m - if c.1 = i then c.2.amount m else 0 := by
      intro m hm
      by_cases hi : i = c.1
      · subst hi
        refine usage_delQuota hu (hvalid c List.mem_cons_self) hplain hm fun hnone => ?_
        -- Without an entry there is no usage, so the request is empty.
        have hle := hcover m hm
        rw [usage_of_find_none hnone, amountOf_cons, if_pos rfl] at hle
        have h0 := hnonneg c List.mem_cons_self rfl m hm
        have h1 := hrest m hm
        linarith
      · rw [usage, find_delQuota_of_ne hu c.2 hi, if_neg (Ne.symm hi), sub_zero]
        rfl
    have hplain' : ∀ e, find K.keyOf (K.delQuota c.1 c.2 q) i = some e → e.clusterIds = [] := by
      intro e he
      by_cases hi : i = c.1
      · subst hi
        obtain ⟨e₀, he₀, hids, -⟩ := find_delQuota hu (hvalid c List.mem_cons_self) he
        rw [hids]
        exact hplain e₀ he₀
      · rw [find_delQuota_of_ne hu c.2 hi] at he
        exact hplain e he
    have hcover' : ∀ m ∈ K.metrics, amountOf l i m ≤ K.usage (K.delQuota c.1 c.2 q) i m := by
      intro m hm
      have hle := hcover m hm
      rw [amountOf_cons] at hle
      rw [hdel m hm]
      linarith
    intro m hm
    rw [delList, ih hu' hvalid' hplain' hnonneg' hcover' m hm, hdel m hm, amountOf_cons, sub_sub]

theorem unique_delList (hu : Unique K.keyOf q) (l : List (Text × Usage)) :
    Unique K.keyOf (K.delList l q) := by
  induction l generalizing q with
  | nil => exact hu
  | cons c l ih => exact ih (unique_delQuota hu c.1 c.2)

theorem Tidy.delList (h : K.Tidy q) (l : List (Text × Usage)) : K.Tidy (K.delList l q) := by
  induction l generalizing q with
  | nil => exact h
  | cons c l ih => exact ih (h.delQuota c.1 c.2)

/-- An entry that is there after a loop of deletions was there before it. -/
theorem find_delList {l : List (Text × Usage)} (hu : Unique K.keyOf q)
    (hvalid : ∀ c ∈ l, K.isValid c.1 = true) {e' : QuotaEntry}
    (h : find K.keyOf (K.delList l q) i = some e') :
    ∃ e, find K.keyOf q i = some e ∧ e'.clusterIds = e.clusterIds ∧
      ∀ m ∈ K.metrics, e'.used m = e.used m - amountOf l i m := by
  induction l generalizing q with
  | nil => exact ⟨e', h, rfl, fun m _ => (sub_zero _).symm⟩
  | cons c l ih =>
    obtain ⟨e₁, he₁, hids₁, hused₁⟩ := ih (unique_delQuota hu c.1 c.2)
      (fun c' hc' => hvalid c' (List.mem_cons_of_mem c hc')) h
    by_cases hi : i = c.1
    · subst hi
      obtain ⟨e, he, hids, hused⟩ := find_delQuota hu (hvalid c List.mem_cons_self) he₁
      refine ⟨e, he, hids₁.trans hids, fun m hm => ?_⟩
      rw [hused₁ m hm, hused m hm, amountOf_cons, if_pos rfl, sub_sub]
    · rw [find_delQuota_of_ne hu c.2 hi] at he₁
      refine ⟨e₁, he₁, hids₁, fun m hm => ?_⟩
      rw [hused₁ m hm, amountOf_cons, if_neg (Ne.symm hi), zero_add]

/-! ## Limits -/

/-- New limits change the limits only. -/
theorem updateLimits_fields (va : QuotaLimits) (ms : List Metric) (e : QuotaEntry) :
    (K.updateLimits va ms e).2.id = e.id ∧ (K.updateLimits va ms e).2.clusterIds = e.clusterIds ∧
      (K.updateLimits va ms e).2.used = e.used := by
  induction ms generalizing e with
  | nil => exact ⟨rfl, rfl, rfl⟩
  | cons m ms ih =>
    rw [updateLimits]
    cases K.newLimit va m with
    | none => exact ⟨rfl, rfl, rfl⟩
    | some limit => exact ih _

theorem keyOf_updateLimits (va : QuotaLimits) (e : QuotaEntry) :
    K.keyOf (K.updateLimits va K.metrics e).2 = K.keyOf e :=
  keyOf_congr (updateLimits_fields va _ e).1 (updateLimits_fields va _ e).2.1

theorem newQuota_fields {va : QuotaLimits} {nq : QuotaEntry} (h : K.newQuota va = some nq) :
    nq.id = va.id ∧ nq.clusterIds = va.clusterIds ∧ nq.used = fun _ => 0 := by
  unfold newQuota at h
  split_ifs at h
  rw [← Option.some.inj h]
  exact ⟨rfl, rfl, rfl⟩

/-- A change that keeps the usage of each entry. -/
theorem usage_modify_of_used {f : QuotaEntry → QuotaEntry} (hf : ∀ e, K.keyOf (f e) = K.keyOf e)
    (hused : ∀ e, (f e).used = e.used) (qid : Text) :
    K.usage (modify K.keyOf f qid q) i m = K.usage q i m := by
  rw [usage, usage, find_modify hf]
  split_ifs with hi
  · rw [hi]
    cases find K.keyOf q qid with
    | none => rfl
    | some e =>
      rw [Option.map_some, Option.map_some, Option.map_some, hused]
  · rfl

/-- A new entry without usage. -/
theorem usage_concat_of_used {e : QuotaEntry} (hused : e.used = fun _ => 0)
    (hnew : find K.keyOf q (K.keyOf e) = none) : K.usage (q ++ [e]) i m = K.usage q i m := by
  rw [usage, usage, find_concat]
  by_cases hi : K.keyOf e = i
  · rw [if_pos hi, ← hi, hnew, Option.none_or, Option.map_some, hused]
    rfl
  · rw [if_neg hi, Option.or_none]

/-- **A change of limits keeps the usage.** -/
theorem Tidy.set (hcluster : K.byCluster = false) {vas : List QuotaLimits} (h : K.Tidy q)
    (hvas : ∀ va ∈ vas, va.clusterIds = []) :
    K.Tidy (K.set vas q).2 ∧
      ∀ i, ∀ m ∈ K.metrics, K.usage (K.set vas q).2 i m = K.usage q i m := by
  induction vas generalizing q with
  | nil => exact ⟨h, fun i m _ => rfl⟩
  | cons va vas ih =>
    have htail := fun va' hva' => hvas va' (List.mem_cons_of_mem va hva')
    rw [QuotaKind.set]
    unfold getQuota
    split_ifs
    · cases hfind : find K.keyOf q va.id with
      | none =>
        dsimp only
        cases hnew : K.newQuota va with
        | none => exact ⟨h, fun i m _ => rfl⟩
        | some nq =>
          obtain ⟨hid, hids, hused⟩ := newQuota_fields hnew
          have hkey : K.keyOf nq = va.id := by
            rw [keyOf, hcluster, hid]
            rfl
          rw [← hkey] at hfind
          have htidy := h.concat hfind (hids.trans (hvas va List.mem_cons_self))
          obtain ⟨htidy', hsum⟩ := ih (htidy.cleanupQuota va.id) htail
          refine ⟨htidy', fun i m hm => ?_⟩
          rw [hsum i m hm, htidy.usage_cleanupQuota va.id hm, usage_concat_of_used hused hfind]
      | some e =>
        dsimp only
        have htidy := h.modify (fun e => keyOf_updateLimits va e)
          (fun e => (updateLimits_fields va K.metrics e).2.1) va.id
        have hsame : ∀ i, ∀ m ∈ K.metrics, K.usage (KeyedList.modify K.keyOf
            (fun e => (K.updateLimits va K.metrics e).2) va.id q) i m = K.usage q i m := fun i m _ =>
          usage_modify_of_used (fun e => keyOf_updateLimits va e)
            (fun e => (updateLimits_fields va K.metrics e).2.2) va.id
        split_ifs
        · obtain ⟨htidy', hsum⟩ := ih (htidy.cleanupQuota va.id) htail
          refine ⟨htidy', fun i m hm => ?_⟩
          rw [hsum i m hm, htidy.usage_cleanupQuota va.id hm, hsame i m hm]
        · exact ⟨htidy, hsame⟩
    · exact ⟨h, fun i m _ => rfl⟩

end QuotaKind
