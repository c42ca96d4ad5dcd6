/-
# Charges and releases of single units

The quotas of networks and images have one metric, and each request for them is one unit.  A release that
finds no entry does nothing, and an entry without usage and without a limit is dropped.  So after some
charges and some releases the usage is what it was exactly when `Restores` holds of the entry that was
there before (`usage_iff_restores`).

An entry has a limit when `cleanup_quota` keeps it whatever its usage (`Limited`).  The entries of
clusters have one (`Lasting`), so the quotas of virtual machines change by the amounts of a request
(`Moved`) also where a cluster is released before it is charged again.
-/
import OpenNebula.ClusterEntries

open KeyedList ClusterQuota

/-! ## Limits and cleanup -/

namespace QuotaKind

variable {K : QuotaKind} {q q' defaults : List QuotaEntry} {qid i : Text} {req : Usage}
  {e e' : QuotaEntry} {u : Metric}

/-- The entry as the cleanup looks at it. -/
def opened (K : QuotaKind) (e : QuotaEntry) : QuotaEntry :=
  if e.clusterIds ≠ [] then K.openLimits e else e

/-- The entry has a limit of its own. -/
def Limited (K : QuotaKind) (e : QuotaEntry) : Prop :=
  ∃ m ∈ K.metrics, (K.opened e).limit m ≠ K.implicitLimit e

instance (K : QuotaKind) (e : QuotaEntry) : Decidable (K.Limited e) :=
  inferInstanceAs (Decidable (∃ m ∈ K.metrics, _))

theorem opened_fields (e : QuotaEntry) : (K.opened e).id = e.id ∧
    (K.opened e).clusterIds = e.clusterIds ∧ (K.opened e).used = e.used := by
  unfold opened
  split_ifs
  · exact ⟨rfl, rfl, rfl⟩
  · exact ⟨rfl, rfl, rfl⟩

/-- The limits of an entry say whether it has one. -/
theorem limited_congr (hids : e'.clusterIds = e.clusterIds) (hlimit : e'.limit = e.limit) :
    K.Limited e' ↔ K.Limited e := by
  have hopened : (K.opened e').limit = (K.opened e).limit := by
    unfold opened
    rw [hids]
    split_ifs
    · unfold openLimits
      rw [hlimit]
    · exact hlimit
  have himplicit : K.implicitLimit e' = K.implicitLimit e := by
    unfold implicitLimit
    rw [hids]
  unfold Limited
  rw [hopened, himplicit]

theorem limited_charge : K.Limited (e.charge K.metrics req) ↔ K.Limited e :=
  limited_congr QuotaEntry.charge_fields.2.1 QuotaEntry.charge_fields.2.2

theorem limited_opened : K.Limited (K.opened e) ↔ K.Limited e := by
  have htwice : (K.opened (K.opened e)).limit = (K.opened e).limit := by
    by_cases hids : e.clusterIds ≠ []
    · have hopen : K.opened e = K.openLimits e := if_pos hids
      have hopen' : K.opened (K.openLimits e) = K.openLimits (K.openLimits e) := if_pos hids
      rw [hopen, hopen']
      funext m
      unfold openLimits
      dsimp only
      split_ifs
      · rfl
      · rfl
      · rfl
    · have hopen : K.opened e = e := if_neg hids
      rw [hopen, hopen]
  have himplicit : K.implicitLimit (K.opened e) = K.implicitLimit e := by
    unfold implicitLimit
    rw [(opened_fields e).2.1]
  unfold Limited
  rw [htwice, himplicit]

/-- An entry that a check makes has no limit. -/
theorem not_limited_fresh (hdefault : K.isDefault = false) : ¬ K.Limited (QuotaEntry.fresh i) := by
  rintro ⟨m, -, hne⟩
  refine hne ?_
  unfold implicitLimit
  rw [hdefault]
  rfl

/-- **A cleanup** keeps an entry that has a limit, and one that is not a cluster quota if it has
usage. -/
theorem find_cleanupQuota (hu : Unique K.keyOf q) (hvalid : K.isValid qid = true)
    (he : find K.keyOf q qid = some e) :
    find K.keyOf (K.cleanupQuota qid q) qid =
      if (∃ m ∈ K.metrics, e.clusterIds = [] ∧ e.used m ≠ 0) ∨ K.Limited e then some (K.opened e)
      else none := by
  have hopened : (if e.clusterIds ≠ [] then K.openLimits else id) e = K.opened e := by
    unfold opened
    split_ifs
    · rfl
    · rfl
  have hkey : ∀ e' : QuotaEntry,
      K.keyOf ((if e.clusterIds ≠ [] then K.openLimits else id) e') = K.keyOf e' := by
    intro e'
    split_ifs
    · exact keyOf_congr rfl rfl
    · rfl
  have htest : (K.metrics.any fun m => (e.clusterIds = [] && (e.used m ≠ 0 : Bool)) ||
      (K.opened e).limit m ≠ K.implicitLimit e) = true ↔
      (∃ m ∈ K.metrics, e.clusterIds = [] ∧ e.used m ≠ 0) ∨ K.Limited e := by
    simp only [List.any_eq_true, Bool.or_eq_true, Bool.and_eq_true, decide_eq_true_eq, Limited]
    constructor
    · rintro ⟨m, hm, h | h⟩
      · exact Or.inl ⟨m, hm, h⟩
      · exact Or.inr ⟨m, hm, h⟩
    · rintro (⟨m, hm, h⟩ | ⟨m, hm, h⟩)
      · exact ⟨m, hm, Or.inl h⟩
      · exact ⟨m, hm, Or.inr h⟩
  unfold cleanupQuota getQuota
  rw [if_pos hvalid, he]
  dsimp only
  rw [hopened]
  split
  · rename_i hany
    rw [if_pos (htest.mp hany), find_modify hkey, if_pos rfl, he, Option.map_some, hopened]
  · rename_i hany
    rw [if_neg fun h => hany (htest.mpr h), find_erase hu, if_pos rfl]

/-- **A deletion** subtracts its request, and the entry goes or stays. -/
theorem find_delQuota_eq (hu : Unique K.keyOf q) (hvalid : K.isValid qid = true)
    (he : find K.keyOf q qid = some e) :
    find K.keyOf (K.delQuota qid req q) qid =
      if (∃ m ∈ K.metrics, e.clusterIds = [] ∧ e.used m - req.amount m ≠ 0) ∨ K.Limited e then
        some (K.opened (e.charge K.metrics req.opposite))
      else none := by
  have hmod : find K.keyOf (modify K.keyOf (QuotaEntry.charge K.metrics req.opposite) qid q) qid =
      some (e.charge K.metrics req.opposite) := by
    rw [find_modify fun e => K.keyOf_charge e, if_pos rfl, he, Option.map_some]
  have hused : ∀ m ∈ K.metrics, (e.charge K.metrics req.opposite).used m = e.used m - req.amount m := by
    intro m hm
    rw [QuotaEntry.used_charge K.nodup hm, Usage.amount_opposite, sub_eq_add_neg]
  have hdel : K.delQuota qid req q =
      K.cleanupQuota qid (modify K.keyOf (QuotaEntry.charge K.metrics req.opposite) qid q) := by
    unfold delQuota getQuota
    rw [if_pos hvalid, he]
  have hcond : (∃ m ∈ K.metrics, (e.charge K.metrics req.opposite).clusterIds = [] ∧
      (e.charge K.metrics req.opposite).used m ≠ 0) ↔
      ∃ m ∈ K.metrics, e.clusterIds = [] ∧ e.used m - req.amount m ≠ 0 := by
    rw [QuotaEntry.charge_fields.2.1]
    constructor
    · rintro ⟨m, hm, hids, hne⟩
      exact ⟨m, hm, hids, hused m hm ▸ hne⟩
    · rintro ⟨m, hm, hids, hne⟩
      exact ⟨m, hm, hids, (hused m hm).symm ▸ hne⟩
  rw [hdel, find_cleanupQuota (hu.modify fun e => K.keyOf_charge e) hvalid hmod]
  simp only [hcond, limited_charge]

/-- A deletion without an entry, or with a wrong identifier, does nothing. -/
theorem delQuota_of_none (h : K.isValid qid = true → find K.keyOf q qid = none) :
    K.delQuota qid req q = q := by
  rcases delQuota_cases q qid req with ⟨heq, -⟩ | ⟨hsome, heq⟩
  · exact heq
  · by_cases hvalid : K.isValid qid = true
    · rw [h hvalid] at hsome
      exact absurd hsome Bool.false_ne_true
    · unfold delQuota getQuota
      rw [if_neg hvalid]

/-! ## Units -/

/-- How many requests are for an identifier. -/
def countOf (l : List (Text × Usage)) (id : Text) : ℕ := l.countP fun c => c.1 = id

theorem countOf_cons_self (req : Usage) (l : List (Text × Usage)) :
    countOf ((i, req) :: l) i = countOf l i + 1 :=
  List.countP_cons_of_pos (decide_eq_true rfl)

theorem countOf_cons_of_ne (h : qid ≠ i) (req : Usage) (l : List (Text × Usage)) :
    countOf ((qid, req) :: l) i = countOf l i :=
  List.countP_cons_of_neg (by simp [h])

/-- The usage of an entry without a limit goes through zero in the first `k` releases. -/
def Drops (K : QuotaKind) (e : QuotaEntry) (used : ℚ) (k : ℕ) : Prop :=
  ¬ K.Limited e ∧ ∃ j : ℕ, 1 ≤ j ∧ j ≤ k ∧ used = j

/-- A quota with one metric. -/
structure Single (K : QuotaKind) (u : Metric) : Prop where
  metrics : K.metrics = [u]
  key : ∀ id, K.keyOf (QuotaEntry.fresh id) = id
  notDefault : K.isDefault = false

/-- All the requests are units. -/
def AllUnits (u : Metric) (l : List (Text × Usage)) : Prop := ∀ c ∈ l, c.2.amount u = 1

theorem AllUnits.cons {c : Text × Usage} {l : List (Text × Usage)} (h : AllUnits u (c :: l)) :
    c.2.amount u = 1 ∧ AllUnits u l :=
  List.forall_mem_cons.mp h

/-- One release of a unit. -/
theorem find_delUnit (hone : K.Single u) (hu : Unique K.keyOf q) (hvalid : K.isValid qid = true)
    (he : find K.keyOf q qid = some e) (hplain : e.clusterIds = []) (hunit : req.amount u = 1) :
    K.Drops e (e.used u) 1 ∧ find K.keyOf (K.delQuota qid req q) qid = none ∨
      ¬ K.Drops e (e.used u) 1 ∧ ∃ e', find K.keyOf (K.delQuota qid req q) qid = some e' ∧
        e'.clusterIds = [] ∧ e'.used u = e.used u - 1 ∧ (K.Limited e' ↔ K.Limited e) := by
  have hmem : ∀ m, m ∈ K.metrics ↔ m = u := fun m => by rw [hone.metrics, List.mem_singleton]
  have hdrops : K.Drops e (e.used u) 1 ↔ ¬ K.Limited e ∧ e.used u = 1 := by
    refine and_congr_right fun _ => ⟨?_, fun h => ⟨1, le_refl 1, le_refl 1, by rw [h, Nat.cast_one]⟩⟩
    rintro ⟨j, h1, hj, h⟩
    rw [h, show j = 1 by omega, Nat.cast_one]
  have hcond : ((∃ m ∈ K.metrics, e.clusterIds = [] ∧ e.used m - req.amount m ≠ 0) ∨ K.Limited e) ↔
      ¬ K.Drops e (e.used u) 1 := by
    rw [hdrops]
    constructor
    · rintro (⟨m, hm, -, hne⟩ | hlimited) ⟨hno, hused⟩
      · rw [(hmem m).mp hm, hunit, hused, sub_self] at hne
        exact hne rfl
      · exact hno hlimited
    · intro h
      by_cases hlimited : K.Limited e
      · exact Or.inr hlimited
      · refine Or.inl ⟨u, (hmem u).mpr rfl, hplain, fun hzero => h ⟨hlimited, ?_⟩⟩
        rw [hunit] at hzero
        exact sub_eq_zero.mp hzero
  rw [find_delQuota_eq hu hvalid he]
  by_cases h : K.Drops e (e.used u) 1
  · left
    rw [if_neg fun hc => hcond.mp hc h]
    exact ⟨h, rfl⟩
  · right
    rw [if_pos (hcond.mpr h)]
    refine ⟨h, _, rfl, ?_, ?_, limited_opened.trans limited_charge⟩
    · rw [(opened_fields _).2.1, QuotaEntry.charge_fields.2.1, hplain]
    · rw [(opened_fields _).2.2, QuotaEntry.used_charge K.nodup ((hmem u).mpr rfl),
        Usage.amount_opposite, hunit, sub_eq_add_neg]

/-- One more release. -/
theorem drops_succ {used : ℚ} {k : ℕ} (e : QuotaEntry) :
    K.Drops e used (k + 1) ↔ K.Drops e used 1 ∨ K.Drops e (used - 1) k := by
  unfold Drops
  rw [← and_or_left]
  refine and_congr_right fun _ => ⟨?_, ?_⟩
  · rintro ⟨j, h1, hj, hused⟩
    rcases Nat.eq_or_lt_of_le h1 with rfl | hlt
    · exact Or.inl ⟨1, le_refl 1, le_refl 1, hused⟩
    · refine Or.inr ⟨j - 1, by omega, by omega, ?_⟩
      rw [hused, Nat.cast_sub h1, Nat.cast_one]
  · rintro (⟨j, h1, hj, hused⟩ | ⟨j, h1, hj, hused⟩)
    · exact ⟨j, h1, by omega, hused⟩
    · refine ⟨j + 1, by omega, by omega, ?_⟩
      rw [Nat.cast_add, Nat.cast_one, ← hused, sub_add_cancel]

theorem drops_congr (h : K.Limited e' ↔ K.Limited e) (used : ℚ) (k : ℕ) :
    K.Drops e' used k ↔ K.Drops e used k := by
  unfold Drops
  rw [h]

/-- Releases without an entry. -/
theorem find_delList_of_none {l : List (Text × Usage)} (hu : Unique K.keyOf q)
    (he : find K.keyOf q i = none) : find K.keyOf (K.delList l q) i = none := by
  induction l generalizing q with
  | nil => exact he
  | cons c l ih =>
    refine ih (unique_delQuota hu c.1 c.2) ?_
    by_cases hi : i = c.1
    · rw [delQuota_of_none fun _ => hi ▸ he]
      exact he
    · rw [find_delQuota_of_ne hu c.2 hi, he]

/-- **The releases of an entry.**  It loses a unit for each of them, or it is dropped on the way. -/
theorem usage_delUnits {l : List (Text × Usage)} (hone : K.Single u) (hunits : AllUnits u l)
    (hu : Unique K.keyOf q) (hvalid : K.isValid i = true) (he : find K.keyOf q i = some e)
    (hplain : e.clusterIds = []) :
    (K.Drops e (e.used u) (countOf l i) → K.usage (K.delList l q) i u = 0) ∧
      (¬ K.Drops e (e.used u) (countOf l i) →
        K.usage (K.delList l q) i u = e.used u - countOf l i) := by
  induction l generalizing q e with
  | nil =>
    refine ⟨?_, fun _ => ?_⟩
    · rintro ⟨-, j, h1, hj, -⟩
      exact absurd (h1.trans hj) (by simp [countOf])
    · rw [delList, usage_of_find he]
      simp [countOf]
  | cons c l ih =>
    obtain ⟨qid, req⟩ := c
    obtain ⟨hunit, htail⟩ := hunits.cons
    have hu' := unique_delQuota hu qid req
    rw [delList]
    by_cases hi : i = qid
    · subst hi
      rw [countOf_cons_self, drops_succ]
      rcases find_delUnit hone hu hvalid he hplain hunit with
        ⟨hdrops, hnone⟩ | ⟨hstays, e', he', hplain', hused, hlimited⟩
      · refine ⟨fun _ => ?_, fun hno => absurd (Or.inl hdrops) hno⟩
        exact usage_of_find_none (find_delList_of_none hu' hnone)
      · obtain ⟨hdrop, hstay⟩ := ih htail hu' he' hplain'
        rw [hused, drops_congr hlimited] at hdrop hstay
        refine ⟨fun h => hdrop (h.resolve_left hstays), fun h => ?_⟩
        rw [hstay fun h' => h (Or.inr h'), Nat.cast_add, Nat.cast_one]
        ring
    · rw [countOf_cons_of_ne (Ne.symm hi)]
      exact ih htail hu' (by rw [find_delQuota_of_ne hu req hi, he]) hplain

/-- A charge of units. -/
theorem find_checkUnits {l : List (Text × Usage)} (hone : K.Single u) (hunits : AllUnits u l)
    (h : K.checkList defaults l q = (none, q')) (i : Text) :
    countOf l i = 0 ∧ find K.keyOf q' i = find K.keyOf q i ∨
      1 ≤ countOf l i ∧ K.isValid i = true ∧ ∃ e', find K.keyOf q' i = some e' ∧
        e'.clusterIds = ((find K.keyOf q i).getD (QuotaEntry.fresh i)).clusterIds ∧
        e'.used u = K.usage q i u + countOf l i ∧
        (K.Limited e' ↔ K.Limited ((find K.keyOf q i).getD (QuotaEntry.fresh i))) := by
  induction l generalizing q with
  | nil =>
    rw [← (Prod.mk.inj h).2]
    exact Or.inl ⟨rfl, rfl⟩
  | cons c l ih =>
    obtain ⟨qid, req⟩ := c
    obtain ⟨hunit, htail⟩ := hunits.cons
    rw [checkList] at h
    cases hcheck : K.checkQuota qid req defaults q with
    | mk error q₁ =>
      rw [hcheck] at h
      cases error with
      | some error => exact absurd (Prod.mk.inj h).1 (by simp)
      | none =>
        have hfits : K.Fits q qid := Or.inl (hone.key qid)
        have hfind := find_checkQuota (i := i) hcheck hfits
        have hmem : u ∈ K.metrics := by rw [hone.metrics, List.mem_singleton]
        have husage := usage_checkQuota (i := i) hcheck hfits hmem
        by_cases hi : i = qid
        · subst hi
          rw [if_pos rfl] at hfind
          rw [if_pos rfl, hunit] at husage
          right
          rw [countOf_cons_self]
          refine ⟨by omega, (checkQuota_cases hcheck).1, ?_⟩
          rcases ih htail h with ⟨hzero, hsame⟩ | ⟨-, -, e', he', hids, hused, hlimited⟩
          · rw [hfind] at hsame
            refine ⟨_, hsame, QuotaEntry.charge_fields.2.1, ?_, limited_charge⟩
            rw [← usage_of_find hfind, husage, hzero, Nat.zero_add, Nat.cast_one]
          · rw [hfind, Option.getD_some] at hids hlimited
            refine ⟨e', he', hids.trans QuotaEntry.charge_fields.2.1, ?_, hlimited.trans limited_charge⟩
            rw [hused, husage, Nat.cast_add, Nat.cast_one]
            ring
        · rw [if_neg hi] at hfind
          rw [if_neg (Ne.symm hi), add_zero] at husage
          rw [countOf_cons_of_ne (Ne.symm hi)]
          have hrest := ih htail h
          rw [hfind, husage] at hrest
          exact hrest

/-- **When charges and releases restore an entry.**  An entry that is dropped on the way must have had no
usage; any other must be released as often as it was charged. -/
def Restores (K : QuotaKind) (u : Metric) (e : QuotaEntry) (charged released : ℕ) : Prop :=
  K.Drops e (e.used u + charged) released ∧ e.used u = 0 ∨
    ¬ K.Drops e (e.used u + charged) released ∧ released = charged

/-- **Charges, and releases of at least as many units**, restore the usage exactly when they restore the
entry that was there. -/
theorem usage_iff_restores {l d : List (Text × Usage)} (hone : K.Single u) (hl : AllUnits u l)
    (hd : AllUnits u d) (htidy : K.Tidy q) (hcheck : K.checkList defaults l q = (none, q'))
    (hle : countOf l i ≤ countOf d i) (hvalid : K.isValid i = true) :
    K.usage (K.delList d q') i u = K.usage q i u ↔
      ∀ e, find K.keyOf q i = some e → K.Restores u e (countOf l i) (countOf d i) := by
  have htidy' := (htidy.checkList hone.key hcheck).1
  have hdel : ∀ e', find K.keyOf q' i = some e' →
      (K.Drops e' (e'.used u) (countOf d i) → K.usage (K.delList d q') i u = 0) ∧
        (¬ K.Drops e' (e'.used u) (countOf d i) →
          K.usage (K.delList d q') i u = e'.used u - countOf d i) := fun e' he' =>
    usage_delUnits hone hd htidy'.unique hvalid he' (htidy'.plain e' (mem_of_find he'))
  cases hfind : find K.keyOf q i with
  | none =>
    -- A new entry is dropped when all its units are released.
    refine iff_of_true ?_ fun e he => absurd he (by simp)
    rw [usage_of_find_none hfind]
    rcases find_checkUnits hone hl hcheck i with ⟨-, hsame⟩ | ⟨hpos, -, e', he', -, hused, hlimited⟩
    · exact usage_of_find_none (find_delList_of_none htidy'.unique (hsame.trans hfind))
    · rw [usage_of_find_none hfind, zero_add] at hused
      rw [hfind, Option.getD_none] at hlimited
      refine (hdel e' he').1 ⟨fun h => ?_, countOf l i, hpos, hle, hused⟩
      exact not_limited_fresh hone.notDefault (hlimited.mp h)
  | some e =>
    obtain ⟨e', he', hused, hlimited⟩ : ∃ e', find K.keyOf q' i = some e' ∧
        e'.used u = e.used u + countOf l i ∧ (K.Limited e' ↔ K.Limited e) := by
      rcases find_checkUnits hone hl hcheck i with ⟨hzero, hsame⟩ | ⟨-, -, e', he', -, hused, hlimited⟩
      · refine ⟨e, hsame.trans hfind, ?_, Iff.rfl⟩
        rw [hzero, Nat.cast_zero, add_zero]
      · rw [hfind, Option.getD_some] at hlimited
        rw [usage_of_find hfind] at hused
        exact ⟨e', he', hused, hlimited⟩
    obtain ⟨hdrop, hstay⟩ := hdel e' he'
    rw [hused, drops_congr hlimited] at hdrop hstay
    have hone' : (∀ e₀, some e = some e₀ → K.Restores u e₀ (countOf l i) (countOf d i)) ↔
        K.Restores u e (countOf l i) (countOf d i) :=
      ⟨fun h => h e rfl, fun h e₀ he₀ => Option.some.inj he₀ ▸ h⟩
    rw [usage_of_find hfind, hone', Restores]
    by_cases hdrops : K.Drops e (e.used u + countOf l i) (countOf d i)
    · rw [hdrop hdrops]
      constructor
      · intro h
        exact Or.inl ⟨hdrops, h.symm⟩
      · rintro (⟨-, h⟩ | ⟨hno, -⟩)
        · exact h.symm
        · exact absurd hdrops hno
    · rw [hstay hdrops]
      constructor
      · intro h
        refine Or.inr ⟨hdrops, ?_⟩
        have hcast : ((countOf d i : ℕ) : ℚ) = countOf l i := by linarith
        exact_mod_cast hcast
      · rintro (⟨hyes, -⟩ | ⟨-, h⟩)
        · exact absurd hyes hdrops
        · rw [h, add_sub_cancel_right]

end QuotaKind

/-! ## The quotas of virtual machines -/

namespace ClusterQuota

variable {C : QuotasConf} {q₀ q q' defaults : List QuotaEntry} {t : QuotaTemplate}
  {δ : Text → Metric → ℚ} {g : Bool} {ids : Text} {req : Usage} {m : Metric}

/-- The entries of clusters have a limit, so they stay whatever is released. -/
def Lasting (C : QuotasConf) (q : List QuotaEntry) : Prop :=
  ∀ ids e, ids ≠ [] → find (C.kind .vm).keyOf q ids = some e → (C.kind .vm).Limited e

/-- The usage has changed by some amounts, and the clusters have their entries; `g` says that there is a
global entry. -/
structure Moved (C : QuotasConf) (q₀ q : List QuotaEntry) (δ : Text → Metric → ℚ) (g : Bool) : Prop where
  tidy : ClusterTidy C q
  lasting : Lasting C q
  same : SameClusters C q₀ q
  usage : ∀ id, ∀ m ∈ (C.kind .vm).metrics,
    (C.kind .vm).usage q id m = (C.kind .vm).usage q₀ id m + δ id m
  global : g = true → (find (C.kind .vm).keyOf q []).isSome

theorem Moved.refl (htidy : ClusterTidy C q) (hlasting : Lasting C q) :
    Moved C q q (fun _ _ => 0) false :=
  ⟨htidy, hlasting, fun _ _ => rfl, fun _ _ _ => (add_zero _).symm, fun h => absurd h (by simp)⟩

/-- What a request for virtual machines charges to an entry. -/
theorem amountOf_vmCharges_eq (C : QuotasConf) (q : List QuotaEntry) (t : QuotaTemplate) (id : Text)
    (m : Metric) : amountOf (vmCharges C q t) id m =
      (if getQuotaId t q = some id then (vmRequest C t).amount m else 0) +
        if id = [] ∧ t.skipGlobalQuota = false then (vmRequest C t).amount m else 0 := by
  have hglobal : amountOf (if t.skipGlobalQuota then [] else [([], vmRequest C t)]) id m =
      if id = [] ∧ t.skipGlobalQuota = false then (vmRequest C t).amount m else 0 := by
    cases hskip : t.skipGlobalQuota with
    | true => rw [if_pos rfl, if_neg (by simp), amountOf_nil]
    | false =>
      rw [if_neg Bool.false_ne_true, amountOf_cons, amountOf_nil, add_zero]
      exact if_congr (by rw [eq_comm, and_iff_left rfl]) rfl rfl
  unfold vmCharges
  cases hid : getQuotaId t q with
  | none =>
    have hno : (none : Option Text) ≠ some id := by simp
    rw [if_neg hno, zero_add]
    exact hglobal
  | some ids =>
    dsimp only
    rw [List.singleton_append, amountOf_cons, hglobal]
    congr 1
    exact if_congr (by rw [Option.some.injEq]) rfl rfl

theorem vmCharges_congr (h : getQuotaId t q' = getQuotaId t q) :
    vmCharges C q' t = vmCharges C q t := by
  unfold vmCharges
  rw [h]

theorem Moved.vmCharges_eq (h : Moved C q₀ q δ g) (htidy : ClusterTidy C q₀) (t : QuotaTemplate) :
    vmCharges C q t = vmCharges C q₀ t :=
  vmCharges_congr (htidy.getQuotaId_same h.tidy h.same t)

theorem lasting_checkQuota (h : Lasting C q) {qid : Text} (hfits : (C.kind .vm).Fits q qid)
    (hcheck : (C.kind .vm).checkQuota qid req defaults q = (none, q')) : Lasting C q' := by
  intro ids e' hne he'
  rw [QuotaKind.find_checkQuota hcheck hfits] at he'
  split_ifs at he' with hid
  · subst hid
    have hsome := hfits.resolve_left fun hkey => hne (hkey.symm.trans rfl)
    obtain ⟨e, he⟩ := Option.isSome_iff_exists.mp hsome
    rw [he, Option.getD_some] at he'
    rw [← Option.some.inj he', QuotaKind.limited_charge]
    exact h ids e hne he
  · exact h ids e' hne he'

theorem lasting_checkList {l : List (Text × Usage)} (h : Lasting C q)
    (hfits : ∀ c ∈ l, (C.kind .vm).Fits q c.1)
    (hcheck : (C.kind .vm).checkList defaults l q = (none, q')) :
    Lasting C q' ∧ ((∃ c ∈ l, c.1 = []) ∨ (find (C.kind .vm).keyOf q []).isSome →
      (find (C.kind .vm).keyOf q' []).isSome) := by
  induction l generalizing q with
  | nil =>
    rw [← (Prod.mk.inj hcheck).2]
    exact ⟨h, fun hsome => hsome.resolve_left (by simp)⟩
  | cons c l ih =>
    rw [QuotaKind.checkList] at hcheck
    cases hone : (C.kind .vm).checkQuota c.1 c.2 defaults q with
    | mk error q₁ =>
      rw [hone] at hcheck
      cases error with
      | some error => exact absurd (Prod.mk.inj hcheck).1 (by simp)
      | none =>
        obtain ⟨hc, hl⟩ := List.forall_mem_cons.mp hfits
        obtain ⟨hlasting, hglobal⟩ := ih (lasting_checkQuota h hc hone)
          (fun c' hc' => QuotaKind.Fits.checkQuota hone hc (hl c' hc')) hcheck
        refine ⟨hlasting, fun hsome => hglobal ?_⟩
        have hfind := QuotaKind.find_checkQuota (i := []) hone hc
        by_cases hnil : [] = c.1
        · right
          rw [hfind, if_pos hnil]
          rfl
        · rw [hfind, if_neg hnil]
          refine hsome.imp_left ?_
          rintro ⟨c', hc', hnil'⟩
          rcases List.mem_cons.mp hc' with rfl | hmem
          · exact absurd hnil'.symm hnil
          · exact ⟨c', hmem, hnil'⟩

/-- **A check** of a virtual machine that succeeds. -/
theorem Moved.check (h : Moved C q₀ q δ g) (htidy : ClusterTidy C q₀)
    (hcheck : (C.kind .vm).checkList defaults (vmCharges C q t) q = (none, q')) :
    Moved C q₀ q' (fun id m => δ id m + amountOf (vmCharges C q₀ t) id m)
      (g || !t.skipGlobalQuota) := by
  have hfits := Quotas.fits_vmCharges (C := C) (t := t) q
  obtain ⟨htidy', hsame'⟩ := ClusterTidy.checkList defaults (vmCharges C q t) h.tidy hfits
  obtain ⟨hlasting, hglobal⟩ := lasting_checkList h.lasting hfits hcheck
  rw [hcheck] at htidy' hsame'
  refine ⟨htidy', hlasting, fun ids hne => (hsame' ids hne).trans (h.same ids hne), ?_, ?_⟩
  · intro id m hm
    rw [QuotaKind.usage_checkList hcheck hfits hm, h.usage id m hm, h.vmCharges_eq htidy, add_assoc]
  · intro hsome
    apply hglobal
    rcases Bool.or_eq_true_iff.mp hsome with hg | hskip
    · exact Or.inr (h.global hg)
    · rw [Bool.not_eq_true'] at hskip
      refine Or.inl ⟨([], vmRequest C t), List.mem_append_right _ ?_, rfl⟩
      rw [hskip]
      exact List.mem_singleton.mpr rfl

/-- One release from an entry that is there. -/
theorem Moved.delOne (h : Moved C q₀ q δ g) {qid : Text} (req : Usage)
    (hsome : (find (C.kind .vm).keyOf q qid).isSome) :
    Moved C q₀ ((C.kind .vm).delQuota qid req q)
      (fun id m => δ id m - if qid = id then req.amount m else 0) (g && qid ≠ []) := by
  obtain ⟨e, he⟩ := Option.isSome_iff_exists.mp hsome
  have hu := QuotaKind.unique_delQuota h.tidy.unique qid req
  have hframe : ∀ i, i ≠ qid → find (C.kind .vm).keyOf ((C.kind .vm).delQuota qid req q) i =
      find (C.kind .vm).keyOf q i := fun i hi => QuotaKind.find_delQuota_of_ne h.tidy.unique req hi
  have hself : find (C.kind .vm).keyOf ((C.kind .vm).delQuota qid req q) qid = _ :=
    QuotaKind.find_delQuota_eq h.tidy.unique (show (C.kind .vm).isValid qid = true from rfl) he
  have hstays : qid ≠ [] → ∃ e', find (C.kind .vm).keyOf ((C.kind .vm).delQuota qid req q) qid = some e' ∧
      (C.kind .vm).Limited e' ∧
      ∀ m ∈ (C.kind .vm).metrics, e'.used m = e.used m - req.amount m := by
    intro hne
    have hlimited := h.lasting qid e hne he
    rw [if_pos (Or.inr hlimited)] at hself
    refine ⟨_, hself, (QuotaKind.limited_opened.trans QuotaKind.limited_charge).mpr hlimited, ?_⟩
    intro m hm
    rw [(QuotaKind.opened_fields _).2.2, QuotaEntry.used_charge (C.kind .vm).nodup hm,
      Usage.amount_opposite, sub_eq_add_neg]
  have hkeys : ∀ ids e', find (C.kind .vm).keyOf ((C.kind .vm).delQuota qid req q) ids = some e' →
      ids ≠ [] → ∃ e, find (C.kind .vm).keyOf q ids = some e := by
    intro ids e' he' _
    by_cases hid : ids = qid
    · exact ⟨e, hid ▸ he⟩
    · exact ⟨e', (hframe ids hid).symm.trans he'⟩
  refine ⟨⟨hu, h.tidy.apart.of_find hu hkeys⟩, ?_, ?_, ?_, ?_⟩
  · intro ids e' hne he'
    by_cases hid : ids = qid
    · subst hid
      obtain ⟨e₁, he₁, hlimited, -⟩ := hstays hne
      rw [← Option.some.inj (he₁.symm.trans he')]
      exact hlimited
    · exact h.lasting ids e' hne ((hframe ids hid).symm.trans he')
  · intro ids hne
    rw [← h.same ids hne]
    by_cases hid : ids = qid
    · subst hid
      obtain ⟨e₁, he₁, -⟩ := hstays hne
      rw [he₁, he]
      rfl
    · rw [hframe ids hid]
  · intro id m hm
    rw [← add_sub_assoc, ← h.usage id m hm]
    by_cases hid : qid = id
    · subst hid
      rw [if_pos rfl]
      by_cases hne : qid = []
      · have hplain : ∀ e, find (C.kind .vm).keyOf q qid = some e → e.clusterIds = [] := fun e he =>
          (clusterIds_of_find he).trans hne
        rw [QuotaKind.usage_delQuota h.tidy.unique rfl hplain hm fun hnone =>
          absurd (hnone.symm.trans he) (by simp), if_pos rfl]
      · obtain ⟨e₁, he₁, -, hused⟩ := hstays hne
        rw [QuotaKind.usage_of_find he₁, QuotaKind.usage_of_find he, hused m hm]
    · rw [if_neg hid, sub_zero, QuotaKind.usage, hframe id (Ne.symm hid)]
      rfl
  · intro hg
    obtain ⟨hg, hne⟩ := Bool.and_eq_true_iff.mp hg
    rw [hframe [] (Ne.symm (of_decide_eq_true hne))]
    exact h.global hg

/-- **A release** of a virtual machine: the global entry has to be there if it is not skipped. -/
theorem Moved.del (h : Moved C q₀ q δ g) (htidy : ClusterTidy C q₀)
    (hg : t.skipGlobalQuota = false → g = true) :
    Moved C q₀ ((C.kind .vm).delList (vmCharges C q t) q)
      (fun id m => δ id m - amountOf (vmCharges C q₀ t) id m) (g && t.skipGlobalQuota) := by
  have hcluster : ∃ q₁, Moved C q₀ q₁ (fun id m => δ id m -
      if getQuotaId t q₀ = some id then (vmRequest C t).amount m else 0) g ∧
      (C.kind .vm).delList (vmCharges C q t) q = (C.kind .vm).delList
        (if t.skipGlobalQuota then [] else [([], vmRequest C t)]) q₁ := by
    have hid := htidy.getQuotaId_same h.tidy h.same t
    unfold vmCharges
    rw [hid]
    cases hcharge : getQuotaId t q₀ with
    | none =>
      refine ⟨q, ?_, rfl⟩
      simpa only [reduceCtorEq, if_false, sub_zero] using h
    | some ids =>
      have hne := ne_nil_of_getQuotaId hcharge
      obtain ⟨_, e, -, he, heids, -⟩ := Quotas.mem_of_getQuotaId (hid.trans hcharge)
      have hfind := find_of_mem h.tidy.unique he
      rw [keyOf_vm, heids] at hfind
      have hdel := h.delOne (vmRequest C t) (Option.isSome_iff_exists.mpr ⟨e, hfind⟩)
      rw [decide_eq_true hne, Bool.and_true] at hdel
      refine ⟨_, ?_, rfl⟩
      simpa only [Option.some.injEq] using hdel
  obtain ⟨q₁, hmoved, heq⟩ := hcluster
  rw [heq]
  cases hskip : t.skipGlobalQuota with
  | true =>
    rw [if_pos rfl, QuotaKind.delList, Bool.and_true]
    simpa only [amountOf_vmCharges_eq, hskip, Bool.true_eq_false, and_false, if_false, add_zero]
      using hmoved
  | false =>
    rw [if_neg Bool.false_ne_true, QuotaKind.delList, QuotaKind.delList]
    have hdel := hmoved.delOne (vmRequest C t) (hmoved.global (hg hskip))
    refine ⟨hdel.tidy, hdel.lasting, hdel.same, fun id m hm => ?_, fun hfalse => ?_⟩
    · have husage := hdel.usage id m hm
      rw [amountOf_vmCharges_eq, hskip, ← sub_sub]
      simpa only [and_true, eq_comm (a := id)] using husage
    · rw [Bool.and_false] at hfalse
      exact absurd hfalse Bool.false_ne_true

/-- **Giving back** a virtual machine to the entry of its cluster. -/
theorem Moved.add (h : Moved C q₀ q δ g) (htidy : ClusterTidy C q₀) (hskip : t.skipGlobalQuota = true) :
    Moved C q₀ (vmAdd C t q) (fun id m => δ id m + amountOf (vmCharges C q₀ t) id m) g := by
  have ht : t = { t with skipGlobalQuota := true } := by
    cases t
    rw [QuotaTemplate.mk.injEq]
    exact ⟨rfl, rfl, rfl, hskip, rfl, rfl, rfl, rfl⟩
  have hfind : ∀ ids, find (C.kind .vm).keyOf (vmAdd C t q) ids =
      if getQuotaId t q = some ids then
        (find (C.kind .vm).keyOf q ids).map (QuotaEntry.charge (C.kind .vm).metrics (vmRequest C t))
      else find (C.kind .vm).keyOf q ids := by
    intro ids
    rw [ht]
    exact find_vmAdd C t q ids
  have htidy' : ClusterTidy C (vmAdd C t q) := by
    rw [ht]
    exact (h.tidy.add t).1
  refine ⟨htidy', ?_, ?_, ?_, ?_⟩
  · intro ids e' hne he'
    rw [hfind] at he'
    split_ifs at he'
    · obtain ⟨e, he, rfl⟩ := Option.map_eq_some_iff.mp he'
      exact QuotaKind.limited_charge.mpr (h.lasting ids e hne he)
    · exact h.lasting ids e' hne he'
  · intro ids hne
    rw [← h.same ids hne, hfind]
    split_ifs
    · rw [Option.isSome_map]
    · rfl
  · intro id m hm
    rw [← add_assoc, ← h.usage id m hm, ← h.vmCharges_eq htidy, amountOf_vmCharges_eq, hskip,
      QuotaKind.usage, QuotaKind.usage, hfind]
    by_cases hid : getQuotaId t q = some id
    · obtain ⟨_, e, -, he, heids, -⟩ := Quotas.mem_of_getQuotaId hid
      have hsome := find_of_mem h.tidy.unique he
      rw [keyOf_vm, heids] at hsome
      rw [if_pos hid, if_pos hid, hsome]
      simp only [Option.map_some, Option.getD_some, QuotaEntry.used_charge (C.kind .vm).nodup hm,
        Bool.true_eq_false, and_false, if_false, add_zero]
    · rw [if_neg hid, if_neg hid]
      simp only [Bool.true_eq_false, and_false, if_false, add_zero]
  · intro hg
    rw [hfind]
    split_ifs
    · rw [Option.isSome_map]
      exact h.global hg
    · exact h.global hg

end ClusterQuota
