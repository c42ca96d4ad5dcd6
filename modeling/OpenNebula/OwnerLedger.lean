/-
# What a change of owner does to the ledger

`Books` says which requests the quotas of each account hold: those that have nothing to do with the
object, the templates of the object for its owner and its group, and what the two requests have charged
and not yet released.  Every step keeps it (`Inv.step`), so the usage is conserved at the end
(`conserved_of_reach`), in runs where

* a virtual machine has at most one disk with usage in its image datastore: `quota_map` has one template
  for each type of quota;
* the object has the owner and the group that were read when it is locked again.

Without them it is not (`not_conserved`).
-/
import OpenNebula.OwnerChange

open KeyedList QuotaAccount Transition

namespace OwnerChange

/-! ## Accounts that hold requests -/

/-- The quotas hold these accepted requests. -/
def Holds (C : QuotasConf) (q : Quotas) (held : Multiset Request) : Prop :=
  ∃ accepted : List Request, (accepted : Multiset Request) = held ∧ Balanced C ⟨q, accepted⟩ ∧
    ClusterBalanced C ⟨q, accepted⟩

/-- The amounts of a template for virtual machines are not negative. -/
def Plain (C : QuotasConf) (r : Request) : Prop :=
  r.1.isVm = true → ∀ m ∈ (C.kind .vm).metrics, 0 ≤ (vmRequest C r.2).amount m

section Holds

variable {C : QuotasConf} {q q' : Quotas} {held : Multiset Request} {r : Request}

theorem Holds.check (h : Holds C q held) {defaults : Quotas} (hplain : Plain C r)
    (hcheck : Quotas.quotaCheck C r.1 r.2 defaults q = (none, q')) : Holds C q' (r ::ₘ held) := by
  obtain ⟨accepted, rfl, hbal, hcluster⟩ := h
  refine ⟨r :: accepted, rfl, hbal.check hcheck hplain, ?_⟩
  have hstep : QuotaAccount.step C ⟨q, accepted⟩ (.check r.1 r.2 defaults) = some ⟨q', r :: accepted⟩ := by
    unfold QuotaAccount.step
    dsimp only
    rw [hcheck]
  have hok : Recomputes C ⟨q, accepted⟩ (.check r.1 r.2 defaults) := trivial
  exact hcluster.step hbal hok hstep

theorem Holds.del (h : Holds C q (r ::ₘ held)) : Holds C (Quotas.quotaDel C r.1 r.2 q) held := by
  obtain ⟨accepted, haccepted, hbal, hcluster⟩ := h
  have hmem : r ∈ accepted := by
    rw [← Multiset.mem_coe, haccepted]
    exact Multiset.mem_cons_self r held
  obtain ⟨i, hi, hr⟩ := List.mem_iff_getElem.mp hmem
  have hget : accepted[i]? = some r := by rw [List.getElem?_eq_getElem hi, hr]
  refine ⟨accepted.eraseIdx i, ?_, hbal.del hget, ?_⟩
  · have hperm := List.getElem_cons_eraseIdx_perm hi
    rw [hr] at hperm
    exact Multiset.cons_inj_right r |>.mp ((Multiset.coe_eq_coe.mpr hperm).trans haccepted)
  · have hstep : QuotaAccount.step C ⟨q, accepted⟩ (.del i) =
        some ⟨Quotas.quotaDel C r.1 r.2 q, accepted.eraseIdx i⟩ := by
      unfold QuotaAccount.step
      dsimp only
      rw [hget]
    have hok : Recomputes C ⟨q, accepted⟩ (.del i) := trivial
    exact hcluster.step hbal hok hstep

theorem Holds.usage (h : Holds C q held) {n : QuotaName} {id : Text} {m : Metric}
    (hm : m ∈ (C.kind n).metrics) (hid : n = .vm → id = []) :
    Quotas.usage C q n id m = (held.map fun r => charged C r n id m).sum := by
  obtain ⟨accepted, rfl, hbal, -⟩ := h
  rw [Multiset.map_coe, Multiset.sum_coe]
  exact hbal.usage n id m hm hid

theorem Holds.cluster (h : Holds C q held) {ids : Text} {e : QuotaEntry} {m : Metric} (hne : ids ≠ [])
    (he : find (C.kind .vm).keyOf (q .vm) ids = some e) (hm : m ∈ (C.kind .vm).metrics) :
    e.used m = (held.map fun r => clusterCharged C r ids m).sum := by
  obtain ⟨accepted, rfl, -, hcluster⟩ := h
  rw [Multiset.map_coe, Multiset.sum_coe]
  exact hcluster ids e m hne he hm

end Holds

/-- The quotas of all the accounts hold these accepted requests. -/
def Books (C : QuotasConf) (quotas : Account → Option Quotas) (held : Account → Multiset Request) : Prop :=
  ∀ a q, a.counted = true → quotas a = some q → Holds C q (held a)

section Books

variable {C : QuotasConf} {defaults : Account → Quotas} {quotas quotas' : Account → Option Quotas}
  {held held' : Account → Multiset Request} {a : Account} {r : Request}

theorem Books.congr (h : Books C quotas held) (heq : ∀ a, a.counted = true → held' a = held a) :
    Books C quotas held' := by
  intro a q ha hq
  rw [heq a ha]
  exact h a q ha hq

/-- An accepted template is added to the quotas of its account, if these are used. -/
theorem quotaAuthorization_cases (h : quotaAuthorization C defaults a r quotas = some quotas') :
    (a.counted = false ∧ quotas' = quotas) ∨
      ∃ q q', quotas a = some q ∧ Quotas.quotaCheck C r.1 r.2 (defaults a) q = (none, q') ∧
        quotas' = Function.update quotas a (some q') := by
  unfold quotaAuthorization at h
  split at h
  · split at h
    · exact absurd h (by simp)
    · rename_i q hq
      split at h
      · rename_i q' hcheck
        exact Or.inr ⟨q, q', hq, hcheck, (Option.some.inj h).symm⟩
      · exact absurd h (by simp)
  · rename_i hcounted
    exact Or.inl ⟨Bool.eq_false_of_not_eq_true hcounted, (Option.some.inj h).symm⟩

theorem quotaRollback_cases (C : QuotasConf) (a : Account) (r : Request)
    (quotas : Account → Option Quotas) :
    ((a.counted = false ∨ quotas a = none) ∧ quotaRollback C a r quotas = quotas) ∨
      ∃ q, quotas a = some q ∧
        quotaRollback C a r quotas = Function.update quotas a (some (Quotas.quotaDel C r.1 r.2 q)) := by
  unfold quotaRollback
  by_cases ha : a.counted = true
  · rw [if_pos ha]
    cases hq : quotas a with
    | none => exact Or.inl ⟨Or.inr rfl, rfl⟩
    | some q => exact Or.inr ⟨q, rfl, rfl⟩
  · rw [if_neg ha]
    exact Or.inl ⟨Or.inl (Bool.eq_false_of_not_eq_true ha), rfl⟩

theorem Books.authorization (h : Books C quotas held) (hplain : Plain C r)
    (hauth : quotaAuthorization C defaults a r quotas = some quotas') :
    Books C quotas' (held + Pi.single a {r}) := by
  intro b q hb hq
  rw [Pi.add_apply]
  rcases quotaAuthorization_cases hauth with ⟨ha, rfl⟩ | ⟨q₀, q₁, hq₀, hcheck, rfl⟩
  · have hba : b ≠ a := fun hba => absurd (hba ▸ hb) (by simp [ha])
    rw [Pi.single_eq_of_ne hba, add_zero]
    exact h b q hb hq
  · by_cases hba : b = a
    · subst hba
      rw [Function.update_self] at hq
      rw [← Option.some.inj hq, Pi.single_eq_same, add_comm, Multiset.singleton_add]
      exact (h b q₀ hb hq₀).check hplain hcheck
    · rw [Function.update_of_ne hba] at hq
      rw [Pi.single_eq_of_ne hba, add_zero]
      exact h b q hb hq

theorem Books.rollback (h : Books C quotas (held + Pi.single a {r})) :
    Books C (quotaRollback C a r quotas) held := by
  intro b q hb hq
  by_cases hba : b = a
  · subst hba
    rcases quotaRollback_cases C b r quotas with ⟨hb' | hnone, heq⟩ | ⟨q₀, hq₀, heq⟩
    · exact absurd hb (by simp [hb'])
    · rw [heq, hnone] at hq
      exact absurd hq (by simp)
    · have hheld := h b q₀ hb hq₀
      rw [Pi.add_apply, Pi.single_eq_same, add_comm, Multiset.singleton_add] at hheld
      rw [heq, Function.update_self] at hq
      rw [← Option.some.inj hq]
      exact hheld.del
  · have hsame : quotaRollback C a r quotas b = quotas b := by
      rcases quotaRollback_cases C a r quotas with ⟨-, heq⟩ | ⟨q₀, -, heq⟩
      · rw [heq]
      · rw [heq, Function.update_of_ne hba]
    have hheld := h b q hb (hsame.symm.trans hq)
    rw [Pi.add_apply, Pi.single_eq_of_ne hba, add_zero] at hheld
    exact hheld

theorem isSome_update {q : Quotas} (hq : quotas a = some q) (q' : Quotas) (b : Account) :
    (Function.update quotas a (some q') b).isSome = (quotas b).isSome := by
  by_cases hba : b = a
  · subst hba
    rw [Function.update_self, hq]
    rfl
  · rw [Function.update_of_ne hba]

/-- No account appears or disappears. -/
theorem isSome_quotaAuthorization (hauth : quotaAuthorization C defaults a r quotas = some quotas')
    (b : Account) : (quotas' b).isSome = (quotas b).isSome := by
  rcases quotaAuthorization_cases hauth with ⟨-, rfl⟩ | ⟨q, q', hq, -, rfl⟩
  · rfl
  · exact isSome_update hq q' b

theorem isSome_quotaRollback (a b : Account) (r : Request) :
    (quotaRollback C a r quotas b).isSome = (quotas b).isSome := by
  rcases quotaRollback_cases C a r quotas with ⟨-, heq⟩ | ⟨q, hq, heq⟩
  · rw [heq]
  · rw [heq]
    exact isSome_update hq _ b

end Books

/-! ## What the object and the requests hold -/

/-- What the owner and the group of the object hold for it. -/
def share (rs : List Request) : Option Obj → Account → Multiset Request
  | none => 0
  | some o => Pi.single (.user o.uid) (rs : Multiset Request) + Pi.single (.group o.gid) (rs : Multiset Request)

/-- What a request has charged and not yet released. -/
def pending : Phase → Account → Multiset Request
  | .start _ _ => 0
  | .named _ _ => 0
  | .charging c todo userDone done =>
    Pi.single (.user c.newUid) ((done : Multiset Request) + if userDone then (todo.take 1 : List Request) else []) +
      Pi.single (.group c.newGid) (done : Multiset Request)
  | .undoing c r done =>
    Pi.single (.user c.newUid) ((done : Multiset Request) + {r}) +
      Pi.single (.group c.newGid) (done : Multiset Request)
  | .retaking c _ done =>
    Pi.single (.user c.newUid) (done : Multiset Request) +
      Pi.single (.group c.newGid) (done : Multiset Request)
  | .releasing _ _ ops => (ops.map fun op => Pi.single op.1 {op.2}).sum
  | .ended _ => 0

/-- The request that will write the object when its rollbacks are made. -/
def Phase.writer : Phase → Option Chown
  | .releasing c true _ => some c
  | _ => none

/-- The object as the request that has locked it will leave it. -/
def State.target (s : State) : Option Obj :=
  match s.lock.bind fun t => (s.phase t).writer with
  | none => s.obj
  | some c => s.obj.map c.write

/-- The requests that the accounts hold: others, the ones for the object, and those of the threads. -/
def State.held (rest : Account → Multiset Request) (rs : List Request) (s : State) :
    Account → Multiset Request :=
  rest + share rs s.target + (pending (s.phase true) + pending (s.phase false))

/-- Where nothing changes, nothing is read. -/
def Chown.Read (c : Chown) : Prop := (c.newUid = -1 → c.oldUid = -1) ∧ (c.newGid = -1 → c.oldGid = -1)

/-- The request changes nothing. -/
def Chown.Idle (c : Chown) : Prop := c.newUid = -1 ∧ c.newGid = -1

/-- The templates of a request that does not fail are those of the object. -/
def Fits (rs : List Request) : Phase → Prop
  | .charging c todo _ done =>
    c.Read ∧ (∀ r ∈ todo, r ∈ rs) ∧ (c.Idle ∨ (done ++ todo : List Request).Perm rs)
  | .retaking c false done => c.Read ∧ (c.Idle ∨ done.Perm rs)
  | _ => True

/-- **The invariant.** -/
structure Inv (C : QuotasConf) (rest : Account → Multiset Request) (rs : List Request) (s : State) :
    Prop where
  books : Books C s.quotas (s.held rest rs)
  same : ∀ o, s.obj = some o → uses o.kind = rs
  locked : ∀ t c success ops, s.phase t = .releasing c success ops → s.lock = some t
  fits : ∀ t, Fits rs (s.phase t)

/-- A virtual machine has at most one disk with usage in its image datastore. -/
def Kind.Single : Kind → Prop
  | .vm _ _ disks => (imageDsQuotas disks).length ≤ 1
  | .image _ _ _ => True
  | .net _ _ => True

instance : DecidablePred Kind.Single
  | .vm _ _ disks => inferInstanceAs (Decidable ((imageDsQuotas disks).length ≤ 1))
  | .image _ _ _ => isTrue trivial
  | .net _ _ => isTrue trivial

/-- When the object is read, no template of it is lost, or nothing changes; when it is locked again, it
has the owner and the group that were read. -/
def Phase.Allowed (obj : Option Obj) : Phase → Prop
  | .named newUid newGid => (newUid = -1 ∧ newGid = -1) ∨ ∀ o ∈ obj, o.kind.Single
  | .retaking c false _ => ∀ o ∈ obj,
    (c.newUid ≠ -1 → o.uid = c.oldUid) ∧ (c.newGid ≠ -1 → o.gid = c.oldGid)
  | _ => True

/-- The condition on a step. -/
def Allowed (s : State) (e : Bool × Bool) : Prop := (s.phase e.1).Allowed s.obj

instance (s : State) (e : Bool × Bool) : Decidable (Allowed s e) := by
  unfold Allowed Phase.Allowed
  split <;> infer_instance

/-! ## The templates of an object -/

theorem insertQuota_perm {m : List Request} {r : Request} (h : r.1 ∉ m.map Prod.fst) :
    (insertQuota m r).Perm (r :: m) := by
  unfold insertQuota
  rw [if_neg h]
  exact List.perm_orderedInsert _ r m

theorem foldl_insertQuota_perm (rs m : List Request) (h : ((rs ++ m).map Prod.fst).Nodup) :
    (rs.foldl insertQuota m).Perm (rs ++ m) := by
  induction rs generalizing m with
  | nil => exact List.Perm.refl m
  | cons r rs ih =>
    rw [List.cons_append, List.map_cons] at h
    have hnodup := List.nodup_cons.mp h
    have hr : r.1 ∉ m.map Prod.fst := by
      intro hmem
      refine hnodup.1 ?_
      rw [List.map_append]
      exact List.mem_append_right _ hmem
    have hperm := insertQuota_perm hr
    have hmid : (rs ++ insertQuota m r).Perm (r :: (rs ++ m)) :=
      (hperm.append_left rs).trans List.perm_middle
    refine (ih (insertQuota m r) ?_).trans hmid
    exact ((hmid.map Prod.fst).nodup_iff).mpr h

theorem mem_foldl_insertQuota {rs m : List Request} {r : Request} (h : r ∈ rs.foldl insertQuota m) :
    r ∈ rs ∨ r ∈ m := by
  induction rs generalizing m with
  | nil => exact Or.inr h
  | cons r' rs ih =>
    rcases ih h with hr | hr
    · exact Or.inl (List.mem_cons_of_mem r' hr)
    · unfold insertQuota at hr
      split at hr
      · exact Or.inr hr
      · rcases List.mem_orderedInsert _ |>.mp hr with rfl | hr
        · exact Or.inl List.mem_cons_self
        · exact Or.inr hr

theorem mem_quotaMap {kind : Kind} {r : Request} (h : r ∈ quotaMap kind) : r ∈ uses kind := by
  rcases mem_foldl_insertQuota h with hr | hr
  · exact hr
  · exact absurd hr List.not_mem_nil

/-- With at most one template for a datastore, no template is lost. -/
theorem quotaMap_perm {kind : Kind} (h : kind.Single) : (quotaMap kind).Perm (uses kind) := by
  have hnodup : ((uses kind).map Prod.fst).Nodup := by
    cases kind with
    | vm done template disks =>
      have hlen : (imageDsQuotas disks).length ≤ 1 := h
      simp only [uses, List.map_cons, List.map_map, Function.comp_def]
      cases himages : imageDsQuotas disks with
      | nil => exact List.nodup_singleton _
      | cons t ts =>
        rw [himages, List.length_cons] at hlen
        obtain rfl : ts = [] := List.length_eq_zero_iff.mp (by omega)
        simp
    | image datastore size snapshots => exact List.nodup_singleton _
    | net parent size =>
      simp only [uses]
      by_cases hparent : parent = -1
      · rw [if_pos hparent]
        exact List.nodup_nil
      · rw [if_neg hparent]
        exact List.nodup_singleton _
  have hperm := foldl_insertQuota_perm (uses kind) [] (by rw [List.append_nil]; exact hnodup)
  rw [List.append_nil] at hperm
  exact hperm

/-! ## The steps -/

theorem sum_rollbacks (uid gid : ℤ) (rs : List Request) :
    ((rollbacks uid gid rs).map fun op => (Pi.single op.1 {op.2} : Account → Multiset Request)).sum =
      Pi.single (.user uid) (rs : Multiset Request) + Pi.single (.group gid) (rs : Multiset Request) := by
  induction rs with
  | nil => exact (by simp [rollbacks])
  | cons r rs ih =>
    unfold rollbacks at ih ⊢
    rw [List.flatMap_cons, List.map_append, List.sum_append, ih, ← Multiset.cons_coe,
      ← Multiset.singleton_add, Pi.single_add, Pi.single_add]
    simp only [List.map_cons, List.map_nil, List.sum_cons, List.sum_nil, add_zero]
    abel

/-- The user is charged. -/
theorem pending_charging_user (c : Chown) (r : Request) (todo done : List Request) :
    pending (.charging c (r :: todo) true done) =
      pending (.charging c (r :: todo) false done) + Pi.single (.user c.newUid) {r} := by
  simp only [pending, ↓reduceIte, Bool.false_eq_true, List.take_succ_cons, List.take_zero,
    Multiset.coe_singleton, Multiset.coe_nil, add_zero, Pi.single_add]
  exact add_right_comm _ _ _

/-- The group is charged, and the template is done. -/
theorem pending_charging_group (c : Chown) (r : Request) (todo done : List Request) :
    pending (.charging c todo false (done ++ [r])) =
      pending (.charging c (r :: todo) true done) + Pi.single (.group c.newGid) {r} := by
  simp only [pending, ↓reduceIte, Bool.false_eq_true, List.take_succ_cons, List.take_zero,
    Multiset.coe_singleton, Multiset.coe_nil, add_zero, Pi.single_add, ← Multiset.coe_add]
  exact (add_assoc _ _ _).symm

theorem pending_undoing (c : Chown) (r : Request) (done : List Request) :
    pending (.undoing c r done) = pending (.retaking c true done) + Pi.single (.user c.newUid) {r} := by
  simp only [pending, Pi.single_add]
  exact add_right_comm _ _ _

theorem pending_releasing (c : Chown) (success : Bool) (op : Account × Request)
    (ops : List (Account × Request)) :
    pending (.releasing c success (op :: ops)) =
      pending (.releasing c success ops) + Pi.single op.1 {op.2} := by
  simp only [pending, List.map_cons, List.sum_cons]
  exact add_comm _ _

/-- What is put under `-1` is not counted. -/
theorem single_of_not_counted {a b : Account} (ha : a.counted = false) (hb : b.counted = true)
    (x : Multiset Request) : (Pi.single a x : Account → Multiset Request) b = 0 := by
  have hba : b ≠ a := by
    rintro rfl
    exact absurd (ha.symm.trans hb) (by simp)
  rw [Pi.single_eq_of_ne hba]

section Thread

variable {C : QuotasConf} {defaults : Account → Quotas} {rest : Account → Multiset Request}
  {rs : List Request} {s s' : State} {t : Bool} {p : Phase} {quotas : Account → Option Quotas}

theorem target_goto (h : p.writer = (s.phase t).writer) : (s.goto t p).target = s.target := by
  unfold State.target State.goto
  dsimp only
  cases hlock : s.lock with
  | none => rfl
  | some u =>
    by_cases hut : u = t
    · subst hut
      rw [Option.bind_some, Option.bind_some, Function.update_self, h]
    · rw [Option.bind_some, Option.bind_some, Function.update_of_ne hut]

/-- The part of the other thread, of the object and of the others. -/
def State.base (rest : Account → Multiset Request) (rs : List Request) (s : State) (t : Bool) :
    Account → Multiset Request :=
  rest + share rs s.target + pending (s.phase !t)

theorem held_eq (rest : Account → Multiset Request) (rs : List Request) (s : State) (t : Bool) :
    s.held rest rs = s.base rest rs t + pending (s.phase t) := by
  unfold State.held State.base
  cases t with
  | true => rw [Bool.not_true, add_comm (pending (s.phase true)), ← add_assoc]
  | false => rw [Bool.not_false, ← add_assoc]

theorem base_goto (h : p.writer = (s.phase t).writer) :
    (s.goto t p).base rest rs t = s.base rest rs t := by
  unfold State.base
  have hother : (s.goto t p).phase (!t) = s.phase (!t) := Function.update_of_ne (by cases t <;> decide) _ _
  rw [target_goto h, hother]

/-- A step of a thread that neither takes nor leaves the lock. -/
theorem Inv.goto (h : Inv C rest rs s) (hwriter : p.writer = (s.phase t).writer)
    (hlock : ∀ c success ops, p = .releasing c success ops → s.lock = some t) (hfits : Fits rs p)
    (hbooks : Books C s.quotas (s.base rest rs t + pending (s.phase t)) →
      Books C quotas (s.base rest rs t + pending p)) :
    Inv C rest rs { s.goto t p with quotas := quotas } := by
  refine ⟨?_, h.same, ?_, ?_⟩
  · have hheld : State.held rest rs { s.goto t p with quotas := quotas } =
        s.base rest rs t + pending p := by
      show (s.goto t p).held rest rs = _
      rw [held_eq rest rs _ t, base_goto hwriter]
      exact congrArg (fun f => s.base rest rs t + pending f) (Function.update_self _ _ _)
    rw [hheld]
    refine hbooks ?_
    rw [← held_eq]
    exact h.books
  · intro u c success ops hu
    by_cases hut : u = t
    · subst hut
      exact hlock c success ops ((Function.update_self _ _ _).symm.trans hu)
    · exact h.locked u c success ops ((Function.update_of_ne hut _ _).symm.trans hu)
  · intro u
    by_cases hut : u = t
    · subst hut
      exact (congrArg (Fits rs) (Function.update_self _ _ _)).mpr hfits
    · exact (congrArg (Fits rs) (Function.update_of_ne hut _ _)).mpr (h.fits u)

/-- A step that changes only the phase. -/
theorem Inv.move (h : Inv C rest rs s) (hwriter : p.writer = (s.phase t).writer)
    (hlock : ∀ c success ops, p = .releasing c success ops → s.lock = some t) (hfits : Fits rs p)
    (hpending : pending p = pending (s.phase t)) : Inv C rest rs (s.goto t p) :=
  h.goto hwriter hlock hfits fun (hb : Books C s.quotas _) => by rw [hpending]; exact hb

theorem Inv.readOwner (h : Inv C rest rs s) {newUid newGid : ℤ} (hp : s.phase t = .start newUid newGid)
    (authorized : Bool) : Inv C rest rs (s.readOwner t newUid newGid authorized) := by
  have hend : Inv C rest rs (s.goto t (.ended false)) :=
    h.move (by rw [hp]; rfl) (by intro _ _ _ hq; cases hq) trivial (by rw [hp]; rfl)
  unfold State.readOwner
  split
  · exact hend
  · split
    · exact h.move (by rw [hp]; rfl) (by intro _ _ _ hq; cases hq) trivial (by rw [hp]; rfl)
    · exact hend

/-- A step that takes the lock. -/
theorem Inv.take (h : Inv C rest rs s) (hlock : s.lock = none) {c : Chown} {success : Bool}
    {ops : List (Account × Request)}
    (hheld : ∀ a, a.counted = true →
      share rs (if success then s.obj.map c.write else s.obj) a + pending (.releasing c success ops) a =
        share rs s.obj a + pending (s.phase t) a) :
    Inv C rest rs { s.goto t (.releasing c success ops) with lock := some t } := by
  set s₁ : State := { s.goto t (.releasing c success ops) with lock := some t } with hs₁
  have hself : s₁.phase t = .releasing c success ops := Function.update_self _ _ _
  have hother : ∀ u, u ≠ t → s₁.phase u = s.phase u := fun u hu => Function.update_of_ne hu _ _
  refine ⟨?_, h.same, ?_, ?_⟩
  · refine h.books.congr fun a ha => ?_
    have htarget : s.target = s.obj := by
      unfold State.target
      rw [hlock]
      rfl
    have htarget₁ : s₁.target = if success then s.obj.map c.write else s.obj := by
      unfold State.target
      show (match (s₁.phase t).writer with
        | none => s.obj
        | some c => s.obj.map c.write) = _
      rw [hself]
      cases success <;> rfl
    rw [held_eq rest rs s₁ t, held_eq rest rs s t]
    unfold State.base
    rw [htarget, htarget₁, hself, hother _ (by cases t <;> decide)]
    simp only [Pi.add_apply]
    rw [add_right_comm, add_assoc (rest a), hheld a ha, ← add_assoc, add_right_comm]
  · intro u c' success' ops' hu
    by_cases hut : u = t
    · rw [hut]
    · have hlocked := h.locked u c' success' ops' ((hother u hut).symm.trans hu)
      exact absurd (hlock.symm.trans hlocked) (by simp)
  · intro u
    by_cases hut : u = t
    · rw [hut, hself]
      trivial
    · rw [hother u hut]
      exact h.fits u

/-- The parts of the user and of the group move from the old ones to the new ones. -/
theorem share_write {o : Obj} {c : Chown} {done : List Request} (hread : c.Read)
    (hdone : c.Idle ∨ done.Perm rs)
    (howner : (c.newUid ≠ -1 → o.uid = c.oldUid) ∧ (c.newGid ≠ -1 → o.gid = c.oldGid)) {a : Account}
    (ha : a.counted = true) :
    share rs (some (c.write o)) a + pending (.releasing c true (rollbacks c.oldUid c.oldGid done)) a =
      share rs (some o) a + pending (.retaking c false done) a := by
  have hpart : ∀ (f : ℤ → Account), (f (-1)).counted = false → ∀ (new old now : ℤ),
      (new = -1 → old = -1) → (new = -1 ∨ done.Perm rs) → (new ≠ -1 → now = old) →
      (Pi.single (f (if new ≠ -1 then new else now)) (rs : Multiset Request) : Account → _) a +
        (Pi.single (f old) (done : Multiset Request) : Account → _) a =
      (Pi.single (f now) (rs : Multiset Request) : Account → _) a +
        (Pi.single (f new) (done : Multiset Request) : Account → _) a := by
    intro f hf new old now hold hperm hnow
    by_cases hnew : new = -1
    · rw [if_neg (not_not.mpr hnew), hold hnew, hnew, single_of_not_counted hf ha]
    · have heq : (done : Multiset Request) = rs :=
        Multiset.coe_eq_coe.mpr (hperm.resolve_left hnew)
      rw [if_pos hnew, hnow hnew, heq, add_comm]
  have huser := hpart .user rfl c.newUid c.oldUid o.uid hread.1 (hdone.imp_left fun h => h.1) howner.1
  have hgroup := hpart .group rfl c.newGid c.oldGid o.gid hread.2 (hdone.imp_left fun h => h.2) howner.2
  simp only [share, pending, Chown.write, sum_rollbacks, Pi.add_apply]
  rw [add_add_add_comm, huser, hgroup, add_add_add_comm]

theorem share_nil (o : Option Obj) : share [] o = 0 := by
  cases o with
  | none => rfl
  | some o => simp [share]

theorem Inv.readUsage (h : Inv C rest rs s) {newUid newGid : ℤ} (hp : s.phase t = .named newUid newGid)
    (hlock : s.lock = none)
    (hone : (newUid = -1 ∧ newGid = -1) ∨ ∀ o ∈ s.obj, o.kind.Single) :
    Inv C rest rs (s.readUsage t newUid newGid) := by
  have hend : Inv C rest rs (s.goto t (.ended false)) :=
    h.move (by rw [hp]; rfl) (by intro _ _ _ hq; cases hq) trivial (by rw [hp]; rfl)
  unfold State.readUsage
  split
  · exact hend
  · rename_i o ho
    set c : Chown := ⟨newUid, newGid, if newUid = -1 then -1 else o.uid,
      if newGid = -1 then -1 else o.gid⟩
    have hread : c.Read := ⟨fun hnew => if_pos hnew, fun hnew => if_pos hnew⟩
    have hcharge : Inv C rest rs (s.goto t (.charging c (quotaMap o.kind) false [])) := by
      refine h.move (by rw [hp]; rfl) (by intro _ _ _ hq; cases hq) ⟨hread, ?_, ?_⟩ ?_
      · intro r hr
        rw [← h.same o ho]
        exact mem_quotaMap hr
      · refine hone.imp id fun hone => ?_
        rw [← h.same o ho]
        exact quotaMap_perm (hone o ho)
      · rw [hp]
        simp [pending]
    dsimp only
    split
    · split
      · exact hend
      · exact hcharge
    · exact hcharge
    · rename_i parent size hkind
      split
      · rename_i hparent
        -- A network that is not a reservation uses nothing.
        have hnil : rs = [] := by
          rw [← h.same o ho, hkind]
          exact if_pos hparent
        refine h.take hlock fun a _ => ?_
        rw [hp, hnil, share_nil, share_nil]
        rfl
      · exact hcharge

theorem Inv.retake (h : Inv C rest rs s) {c : Chown} {failed : Bool} {done : List Request}
    (hp : s.phase t = .retaking c failed done) (hlock : s.lock = none)
    (howner : failed = false → ∀ o ∈ s.obj,
      (c.newUid ≠ -1 → o.uid = c.oldUid) ∧ (c.newGid ≠ -1 → o.gid = c.oldGid)) :
    Inv C rest rs (s.retake t c failed done) := by
  unfold State.retake
  by_cases hfail : (s.obj.isNone || failed) = true
  · rw [if_pos hfail]
    refine h.take hlock fun a _ => ?_
    rw [hp]
    simp only [pending, sum_rollbacks]
    rfl
  · rw [if_neg hfail]
    simp only [Bool.or_eq_true, not_or, Bool.not_eq_true, Option.isNone_eq_false_iff] at hfail
    obtain ⟨o, ho⟩ := Option.isSome_iff_exists.mp hfail.1
    have hfits := h.fits t
    rw [hp, hfail.2] at hfits
    refine h.take hlock fun a ha => ?_
    rw [hp, ho, hfail.2]
    exact share_write hfits.1 hfits.2 (howner hfail.2 o ho) ha

theorem Inv.finish (h : Inv C rest rs s) {c : Chown} {success : Bool}
    (hp : s.phase t = .releasing c success []) : Inv C rest rs (s.finish t c success) := by
  have hlock : s.lock = some t := h.locked t c success [] hp
  have htarget : s.target = if success then s.obj.map c.write else s.obj := by
    unfold State.target
    rw [hlock, Option.bind_some, hp]
    cases success <;> rfl
  have hother : ∀ u, u ≠ t → (s.finish t c success).phase u = s.phase u := fun u hu =>
    Function.update_of_ne hu _ _
  have hself : (s.finish t c success).phase t = .ended success := Function.update_self _ _ _
  refine ⟨?_, ?_, ?_, ?_⟩
  · have hheld : (s.finish t c success).held rest rs = s.held rest rs := by
      rw [held_eq rest rs _ t, held_eq rest rs s t, hself, hp]
      unfold State.base
      rw [hother _ (by cases t <;> decide), htarget]
      rfl
    rw [hheld]
    exact h.books
  · intro o ho
    cases success with
    | false => exact h.same o ho
    | true =>
      obtain ⟨o', ho', rfl⟩ := Option.map_eq_some_iff.mp ho
      exact h.same o' ho'
  · intro u c' success' ops hu
    by_cases hut : u = t
    · rw [hut, hself] at hu
      cases hu
    · have hlocked := h.locked u c' success' ops ((hother u hut).symm.trans hu)
      exact absurd (Option.some.inj (hlock.symm.trans hlocked)) (Ne.symm hut)
  · intro u
    by_cases hut : u = t
    · rw [hut, hself]
      trivial
    · rw [hother u hut]
      exact h.fits u

/-- **One step of a request** keeps the invariant. -/
theorem Inv.step (h : Inv C rest rs s) (hplain : ∀ r ∈ rs, Plain C r) {e : Bool × Bool}
    (hok : Allowed s e) (hstep : step C defaults s e = some s') : Inv C rest rs s' := by
  obtain ⟨t, authorized⟩ := e
  unfold OwnerChange.step at hstep
  unfold Allowed at hok
  have hfits := h.fits t
  cases hp : s.phase t with
  | start newUid newGid =>
    rw [hp] at hstep
    rw [← Option.some.inj hstep]
    exact h.readOwner hp authorized
  | named newUid newGid =>
    rw [hp] at hstep hok
    obtain ⟨hlock, hstep⟩ := Option.ite_none_right_eq_some.mp hstep
    rw [← Option.some.inj hstep]
    exact h.readUsage hp hlock hok
  | charging c todo userDone done =>
    rw [hp] at hstep hfits
    obtain ⟨hread, hmem, hperm⟩ := hfits
    cases todo with
    | nil =>
      rw [← Option.some.inj hstep]
      rw [List.append_nil] at hperm
      refine h.move (by rw [hp]; rfl) (by intro _ _ _ hq; cases hq) ⟨hread, hperm⟩ ?_
      rw [hp]
      simp [pending]
    | cons r todo =>
      have hr := hplain r (hmem r List.mem_cons_self)
      cases userDone with
      | false =>
        simp only [State.advance] at hstep
        split at hstep
        · rw [← Option.some.inj hstep]
          refine h.move (by rw [hp]; rfl) (by intro _ _ _ hq; cases hq) trivial ?_
          rw [hp]
          simp [pending]
        · rename_i quotas hauth
          rw [← Option.some.inj hstep]
          refine h.goto (by rw [hp]; rfl) (by intro _ _ _ hq; cases hq) ⟨hread, hmem, hperm⟩ ?_
          intro hbooks
          rw [hp] at hbooks
          rw [pending_charging_user, ← add_assoc]
          exact hbooks.authorization hr hauth
      | true =>
        simp only [State.advance] at hstep
        split at hstep
        · rw [← Option.some.inj hstep]
          refine h.move (by rw [hp]; rfl) (by intro _ _ _ hq; cases hq) trivial ?_
          rw [hp]
          rfl
        · rename_i quotas hauth
          rw [← Option.some.inj hstep]
          refine h.goto (by rw [hp]; rfl) (by intro _ _ _ hq; cases hq)
            ⟨hread, fun r' hr' => hmem r' (List.mem_cons_of_mem r hr'), ?_⟩ ?_
          · rw [List.append_assoc]
            exact hperm
          · intro hbooks
            rw [hp] at hbooks
            rw [pending_charging_group c r todo, ← add_assoc]
            exact hbooks.authorization hr hauth
  | undoing c r done =>
    rw [hp] at hstep
    rw [← Option.some.inj hstep]
    refine h.goto (by rw [hp]; rfl) (by intro _ _ _ hq; cases hq) trivial fun hbooks => ?_
    rw [hp, pending_undoing, ← add_assoc] at hbooks
    exact hbooks.rollback
  | retaking c failed done =>
    rw [hp] at hstep hok
    obtain ⟨hlock, hstep⟩ := Option.ite_none_right_eq_some.mp hstep
    rw [← Option.some.inj hstep]
    refine h.retake hp hlock ?_
    rintro rfl
    exact hok
  | releasing c success ops =>
    rw [hp] at hstep
    cases ops with
    | nil =>
      rw [← Option.some.inj hstep]
      exact h.finish hp
    | cons op ops =>
      rw [← Option.some.inj hstep]
      refine h.goto (by rw [hp]; cases success <;> rfl)
        (fun _ _ _ _ => h.locked t c success (op :: ops) hp) trivial fun hbooks => ?_
      rw [hp, pending_releasing, ← add_assoc] at hbooks
      exact hbooks.rollback
  | ended success =>
    rw [hp] at hstep
    exact absurd hstep (by simp [State.advance])

end Thread

/-! ## Runs -/

/-- Two requests are about to start: every account has at least the usage of the object if it owns it. -/
structure Start (C : QuotasConf) (rest : Account → Multiset Request) (s : State) : Prop where
  free : s.lock = none
  waiting : ∀ t, ∃ newUid newGid, s.phase t = .start newUid newGid
  known : ∀ a, (s.quotas a).isSome = true → 0 ≤ a.id
  plain : ∀ r ∈ s.uses, Plain C r
  books : Books C s.quotas (rest + share s.uses s.obj)

section Run

variable {C : QuotasConf} {defaults : Account → Quotas} {rest : Account → Multiset Request}
  {s s' : State}

theorem Start.inv (h : Start C rest s) : Inv C rest s.uses s := by
  have hpending : ∀ t, pending (s.phase t) = 0 := by
    intro t
    obtain ⟨newUid, newGid, hp⟩ := h.waiting t
    rw [hp]
    rfl
  refine ⟨?_, ?_, ?_, ?_⟩
  · have htarget : s.target = s.obj := by
      unfold State.target
      rw [h.free]
      rfl
    unfold State.held
    rw [htarget, hpending, hpending, add_zero, add_zero]
    exact h.books
  · intro o ho
    unfold State.uses
    rw [ho]
    rfl
  · intro t c success ops ht
    obtain ⟨newUid, newGid, hp⟩ := h.waiting t
    exact absurd (hp.symm.trans ht) (by simp)
  · intro t
    obtain ⟨newUid, newGid, hp⟩ := h.waiting t
    rw [hp]
    trivial

/-- What a step of a thread leaves alone: the accounts that exist, the other thread, and the object
unless the thread ends with success. -/
structure Frame (t : Bool) (s s' : State) : Prop where
  accounts : ∀ a, (s'.quotas a).isSome = (s.quotas a).isSome
  others : ∀ u, u ≠ t → s'.phase u = s.phase u
  written : s'.obj = s.obj ∨ s'.phase t = .ended true

theorem Frame.goto (s : State) (t : Bool) (p : Phase) : Frame t s (s.goto t p) :=
  ⟨fun _ => rfl, fun _ hu => Function.update_of_ne hu _ _, Or.inl rfl⟩

theorem Frame.lock {t : Bool} (h : Frame t s s') (l : Option Bool) :
    Frame t s { s' with lock := l } :=
  ⟨h.accounts, h.others, h.written⟩

theorem Frame.quotas {t : Bool} (h : Frame t s s') {quotas : Account → Option Quotas}
    (hsome : ∀ a, (quotas a).isSome = (s.quotas a).isSome) : Frame t s { s' with quotas := quotas } :=
  ⟨hsome, h.others, h.written⟩

theorem Frame.readUsage (s : State) (t : Bool) (newUid newGid : ℤ) :
    Frame t s (s.readUsage t newUid newGid) := by
  unfold State.readUsage
  split
  · exact Frame.goto s t _
  · dsimp only
    split
    · split
      · exact Frame.goto s t _
      · exact Frame.goto s t _
    · exact Frame.goto s t _
    · split
      · exact (Frame.goto s t _).lock _
      · exact Frame.goto s t _

theorem frame_step {t authorized : Bool} (hstep : step C defaults s (t, authorized) = some s') :
    Frame t s s' := by
  unfold step State.advance at hstep
  dsimp only at hstep
  split at hstep
  · rw [← Option.some.inj hstep]
    unfold State.readOwner
    split
    · exact Frame.goto s t _
    · split
      · exact Frame.goto s t _
      · exact Frame.goto s t _
  · obtain ⟨-, hstep⟩ := Option.ite_none_right_eq_some.mp hstep
    rw [← Option.some.inj hstep]
    exact Frame.readUsage s t _ _
  · rw [← Option.some.inj hstep]
    exact Frame.goto s t _
  · split at hstep
    · rw [← Option.some.inj hstep]
      exact Frame.goto s t _
    · rename_i hauth
      rw [← Option.some.inj hstep]
      exact (Frame.goto s t _).quotas (isSome_quotaAuthorization hauth)
  · split at hstep
    · rw [← Option.some.inj hstep]
      exact Frame.goto s t _
    · rename_i hauth
      rw [← Option.some.inj hstep]
      exact (Frame.goto s t _).quotas (isSome_quotaAuthorization hauth)
  · rw [← Option.some.inj hstep]
    exact (Frame.goto s t _).quotas fun a => isSome_quotaRollback _ a _
  · obtain ⟨-, hstep⟩ := Option.ite_none_right_eq_some.mp hstep
    rw [← Option.some.inj hstep]
    unfold State.retake
    split
    · exact (Frame.goto s t _).lock _
    · exact (Frame.goto s t _).lock _
  · rw [← Option.some.inj hstep]
    exact (Frame.goto s t _).quotas fun a => isSome_quotaRollback _ a _
  · rename_i c success _
    rw [← Option.some.inj hstep]
    refine ⟨fun _ => rfl, fun _ hu => Function.update_of_ne hu _ _, ?_⟩
    cases success with
    | false => exact Or.inl rfl
    | true => exact Or.inr (Function.update_self _ _ _)
  · exact absurd hstep (by simp)

/-- The accounts stay, and the object is written only by a request that succeeds. -/
theorem frame_run {ok : State → Bool × Bool → Prop} (hrun : Reach (step C defaults) ok s s') :
    (∀ a, (s'.quotas a).isSome = (s.quotas a).isSome) ∧
      (s'.obj = s.obj ∨ ∃ t, s'.phase t = .ended true) := by
  refine hrun.inv (P := fun s' => (∀ a, (s'.quotas a).isSome = (s.quotas a).isSome) ∧
    (s'.obj = s.obj ∨ ∃ t, s'.phase t = .ended true)) ⟨fun _ => rfl, Or.inl rfl⟩ ?_
  rintro s₁ ⟨t, authorized⟩ s₂ ⟨hsome, hobj⟩ - hstep
  have hframe := frame_step hstep
  refine ⟨fun a => (hframe.accounts a).trans (hsome a), ?_⟩
  rcases hobj with hobj | ⟨u, hu⟩
  · rcases hframe.written with hsame | hend
    · exact Or.inl (hsame.trans hobj)
    · exact Or.inr ⟨t, hend⟩
  · refine Or.inr ⟨u, ?_⟩
    by_cases hut : u = t
    · -- A thread that has ended takes no step.
      subst hut
      unfold step at hstep
      rw [hu] at hstep
      exact absurd hstep (by simp [State.advance])
    · rw [hframe.others u hut, hu]

/-- What an account holds for the object. -/
theorem sum_share (rs : List Request) (o : Option Obj) (a : Account) (f : Request → ℚ) :
    ((share rs o a).map f).sum = portion (rs.map f).sum o a := by
  cases o with
  | none => rfl
  | some o =>
    unfold portion
    simp only [share, Pi.add_apply]
    cases a with
    | user uid =>
      by_cases h : uid = o.uid
      · subst h
        rw [if_pos (show owns (some o) (.user o.uid) from Or.inl rfl), Pi.single_eq_same, Pi.single_eq_of_ne (by simp), add_zero,
          Multiset.map_coe, Multiset.sum_coe]
      · rw [if_neg (by simp [owns, h]), Pi.single_eq_of_ne (by simp [h]),
          Pi.single_eq_of_ne (by simp)]
        rfl
    | group gid =>
      by_cases h : gid = o.gid
      · subst h
        rw [if_pos (show owns (some o) (.group o.gid) from Or.inr rfl), Pi.single_eq_same, Pi.single_eq_of_ne (by simp), zero_add,
          Multiset.map_coe, Multiset.sum_coe]
      · rw [if_neg (by simp [owns, h]), Pi.single_eq_of_ne (by simp),
          Pi.single_eq_of_ne (by simp [h])]
        rfl

theorem Inv.ended {rs : List Request} (h : Inv C rest rs s) (hend : s.Ended) :
    Books C s.quotas (rest + share rs s.obj) := by
  have hpending : ∀ t, pending (s.phase t) = 0 := by
    intro t
    obtain ⟨success, hp⟩ := hend t
    rw [hp]
    rfl
  have htarget : s.target = s.obj := by
    unfold State.target
    cases s.lock with
    | none => rfl
    | some t =>
      obtain ⟨success, hp⟩ := hend t
      rw [Option.bind_some, hp]
      rfl
  have hbooks := h.books
  unfold State.held at hbooks
  rw [htarget, hpending, hpending, add_zero, add_zero] at hbooks
  exact hbooks

end Run

/-! ## Runs of two requests -/

/-- A disk of 10 that is in its image datastore. -/
def selfDisk (datastoreId : String) : VmDisk where
  disk := ⟨[], some 10, none, [], some true, "SELF".toList, "NONE".toList⟩
  datastoreId := datastoreId.toList

/-- A virtual machine of the user 1 and the group 100. -/
def vmObj (disks : List VmDisk) : Obj := ⟨1, 100, .vm false emptyTemplate disks⟩

/-- The quotas after some accepted requests. -/
def charge : List Request → Quotas
  | [] => fun _ => []
  | r :: rs => (Quotas.quotaCheck conf r.1 r.2 (fun _ => []) (charge rs)).2

/-- All of the requests are accepted. -/
def accepts : List Request → Bool
  | [] => true
  | r :: rs => (Quotas.quotaCheck conf r.1 r.2 (fun _ => []) (charge rs)).1.isNone && accepts rs

/-- The owner and the group of the object are charged, the users 2 and 3 and the group 101 have nothing. -/
def startState (o : Obj) (first second : ℤ × ℤ) : State where
  quotas := fun a => match a with
    | .user 1 => some (charge (uses o.kind))
    | .group 100 => some (charge (uses o.kind))
    | .user 2 => some fun _ => []
    | .user 3 => some fun _ => []
    | .group 101 => some fun _ => []
    | _ => none
  obj := some o
  lock := none
  phase := fun t => if t then .start first.1 first.2 else .start second.1 second.2

/-- Steps of the two threads, in turns of the given lengths. -/
def turns (l : List (Bool × ℕ)) : List (Bool × Bool) := l.flatMap fun p => List.replicate p.2 (p.1, true)

theorem holds_charge {rs : List Request} (hplain : ∀ r ∈ rs, Plain conf r) (h : accepts rs = true) :
    Holds conf (charge rs) rs := by
  induction rs with
  | nil =>
    refine ⟨[], rfl, balanced_start conf, ?_⟩
    intro ids e m _ he
    exact absurd he (by simp [charge, find_nil])
  | cons r rs ih =>
    unfold accepts at h
    rw [Bool.and_eq_true, Option.isNone_iff_eq_none] at h
    have hheld := ih (fun r' hr' => hplain r' (List.mem_cons_of_mem r hr')) h.2
    exact hheld.check (hplain r List.mem_cons_self) (Prod.ext h.1 rfl)

theorem plain_uses (disks : List VmDisk) (h : ∀ d ∈ disks, 0 ≤ d.disk.systemDsSize) :
    ∀ r ∈ uses (vmObj disks).kind, Plain conf r := by
  intro r hr
  rcases List.mem_cons.mp hr with rfl | hr
  · intro _ m _
    unfold Usage.amount vmRequest
    split_ifs
    · have hsum : 0 ≤ ((disks.map VmDisk.disk).map QuotaDisk.systemDsSize).sum := by
        refine List.sum_nonneg fun x hx => ?_
        obtain ⟨d, hd, rfl⟩ := List.mem_map.mp hx
        obtain ⟨d', hd', rfl⟩ := List.mem_map.mp hd
        exact h d' hd'
      rw [Option.getD_some]
      simp only [QuotaTemplate.systemDsSize, QuotaTemplate.getSnapshotsSystemSize, emptyTemplate,
        List.map_nil, List.sum_nil, add_zero]
      exact_mod_cast hsum
    · exact le_refl 0
    · exact le_refl 0
  · obtain ⟨t, -, rfl⟩ := List.mem_map.mp hr
    intro hvm
    exact absurd hvm Bool.false_ne_true

theorem start_vmObj {disks : List VmDisk} (hplain : ∀ d ∈ disks, 0 ≤ d.disk.systemDsSize)
    (haccepts : accepts (uses (vmObj disks).kind) = true) (first second : ℤ × ℤ) :
    Start conf 0 (startState (vmObj disks) first second) := by
  have hempty : Holds conf (fun _ => []) (0 : Multiset Request) :=
    holds_charge (show ∀ r ∈ ([] : List Request), Plain conf r by simp) rfl
  have hheld := holds_charge (plain_uses disks hplain) haccepts
  refine ⟨rfl, ?_, ?_, plain_uses disks hplain, ?_⟩
  · intro t
    cases t with
    | false => exact ⟨second.1, second.2, rfl⟩
    | true => exact ⟨first.1, first.2, rfl⟩
  · intro a ha
    unfold startState at ha
    dsimp only at ha
    split at ha
    · exact (by decide)
    · exact (by decide)
    · exact (by decide)
    · exact (by decide)
    · exact (by decide)
    · exact absurd ha (by simp)
  · intro a q _ hq
    rw [zero_add]
    unfold startState at hq
    dsimp only at hq
    split at hq
    · have hshare : share (uses (vmObj disks).kind) (some (vmObj disks)) (.user 1) =
          (uses (vmObj disks).kind : Multiset Request) := by
        simp [share, vmObj]
      rw [← Option.some.inj hq]
      exact hshare ▸ hheld
    · rw [← Option.some.inj hq]
      exact hheld
    · rw [← Option.some.inj hq]
      exact hempty
    · rw [← Option.some.inj hq]
      exact hempty
    · rw [← Option.some.inj hq]
      exact hempty
    · exact absurd hq (by simp)

/-- The first request changes the user, the second one the group, in turns. -/
def mixedTurns : List (Bool × Bool) :=
  turns [(true, 2), (false, 2), (true, 3), (false, 3), (true, 2), (false, 2), (true, 6), (false, 6)]

/-- The owner after a run. -/
def ownerOf (s : State) : Option (ℤ × ℤ) := s.obj.map fun o => (o.uid, o.gid)

/-- Both threads have ended. -/
def State.hasEnded (s : State) : Bool :=
  match s.phase true, s.phase false with
  | .ended _, .ended _ => true
  | _, _ => false

theorem State.ended_of_hasEnded {s : State} (h : s.hasEnded = true) : s.Ended := by
  unfold State.hasEnded at h
  split at h
  · rename_i htrue hfalse
    intro t
    cases t with
    | true => exact ⟨_, htrue⟩
    | false => exact ⟨_, hfalse⟩
  · exact absurd h Bool.false_ne_true

/-- The usage of a datastore. -/
def sizeOf (s : State) (a : Account) (datastore : String) : Option ℚ :=
  (s.quotas a).map fun q => Quotas.usage conf q .datastore datastore.toList "SIZE".toList

theorem values_mixedTurns : ((runChecked (step conf fun _ _ => []) Allowed
    (startState (vmObj [selfDisk "1"]) (2, -1) (-1, 101)) mixedTurns).map fun s =>
      (s.hasEnded, ownerOf s, sizeOf s (.user 1) "1", sizeOf s (.user 2) "1")) =
    some (true, some (2, 101), some 0, some 10) := by
  decide +kernel

/-- The second request is rejected, and the first one changes the owner. -/
def oneTurn : List (Bool × Bool) := (false, false) :: turns [(true, 13)]

/-- Both requests have read the owner before one of them writes it. -/
def racingTurns : List (Bool × Bool) := turns [(true, 7), (false, 7), (true, 6), (false, 6)]

/-- What the object uses of a datastore. -/
def usedSize (s : State) (datastore : String) : ℚ :=
  (s.uses.map fun r => charged conf r .datastore datastore.toList "SIZE".toList).sum

theorem sizeOf_of_conserved {s s' : State} {a : Account} {datastore : String} {u u' : ℚ}
    (h : Conserved conf s s' a) (hu : sizeOf s a datastore = some u)
    (hu' : sizeOf s' a datastore = some u') :
    u' + portion (usedSize s datastore) s.obj a = u + portion (usedSize s datastore) s'.obj a := by
  obtain ⟨q, hq, rfl⟩ := Option.map_eq_some_iff.mp hu
  obtain ⟨q', hq', rfl⟩ := Option.map_eq_some_iff.mp hu'
  unfold Conserved at h
  rw [hq, hq'] at h
  exact h.1 .datastore datastore.toList "SIZE".toList (by decide) (by simp)

theorem values_oneTurn : ((runEvents (step conf fun _ _ => [])
    (startState (vmObj [selfDisk "1", selfDisk "2"]) (2, -1) (2, -1)) oneTurn).map fun s =>
      (s.hasEnded, sizeOf s (.user 1) "2", portion 10 s.obj (.user 1))) =
    some (true, some 10, 0) := by
  decide +kernel

theorem values_racingTurns : ((runEvents (step conf fun _ _ => [])
    (startState (vmObj [selfDisk "1"]) (2, -1) (3, -1)) racingTurns).map fun s =>
      (s.hasEnded, sizeOf s (.user 2) "1", portion 10 s.obj (.user 2))) =
    some (true, some 10, 0) := by
  decide +kernel

/-- A virtual machine with two disks in different datastores. -/
def twoDisks : State := startState (vmObj [selfDisk "1", selfDisk "2"]) (2, -1) (2, -1)

/-- Two requests with different owners. -/
def twoOwners : State := startState (vmObj [selfDisk "1"]) (2, -1) (3, -1)

end OwnerChange
