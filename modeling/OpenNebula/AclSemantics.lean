/-
# What the access control lists grant

A rule selects a user, a zone, some rights and some objects.  `authorize` grants an operation when a
rule, stored or from the permissions of the object, selects the request, except that it looks the user
of a rule up as a whole word: a rule that `malformed` accepts with other bits in its user is for nobody
(`authorize_iff_selects_iff`).
`reverseSearch` collects what the stored rules grant, but it compares the zone as a whole word and
the operation with its lock bit: it agrees with `authorize` under the condition of
`agrees_iff_exact`.
-/
import OpenNebula.AclManager
import OpenNebula.BitMask

open BitMask AclRule

/-! ## Words -/

theorem ObjectType.bits_apart_low (t : ObjectType) : Apart t.bits (low 32 64) := by
  cases t <;> decide

theorem ObjectType.msb_bits (t : ObjectType) : t.bits.msb = false := by cases t <;> decide

theorem ObjectType.noneId_apart_bits (t : ObjectType) : Apart noneId t.bits := by cases t <;> decide

theorem low_eq : low 32 64 = 0x00000000FFFFFFFF := by decide

/-- **An identifier under a mask.**  A word whose identifier is not negative has the flags and the
identifier of the pattern, or it does not match; so a negative identifier is never matched. -/
theorem and_flags_long_eq_iff {f x : BitVec 64} (hf : Apart f (low 32 64)) (hmsb : f.msb = false)
    (hx : (x.setWidth 32).msb = false) (id : Oid) :
    x &&& (f ||| 0x00000000FFFFFFFF) = f ||| id.long ↔ Has x f ∧ x.setWidth 32 = id := by
  rw [← low_eq]
  cases hid : id.msb with
  | false =>
    have hlong : id.long = id.setWidth 64 := BitVec.signExtend_eq_setWidth_of_msb_false hid
    rw [hlong]
    exact and_flags_low_eq_iff (by omega) hf x id
  | true =>
    constructor
    · intro h
      have hbit := congrArg BitVec.msb h
      have hlow : (low 32 64).msb = false := by decide
      have hlong : id.long.msb = true := by simp [Oid.long, BitVec.msb_signExtend, hid]
      simp [BitVec.msb_and, BitVec.msb_or, hmsb, hlow, hlong] at hbit
    · rintro ⟨-, rfl⟩
      rw [hx] at hid
      contradiction

/-! ## Selectors -/

namespace AclRule

/-- The rule is for everyone, for the user or for one of the groups. -/
def UserSelects (r : AclRule) (uid : Oid) (groups : List Oid) : Prop :=
  r.user = allId ∨ r.user = individualId ||| uid.long ∨ ∃ g ∈ groups, r.user = groupId ||| g.long

/-- The selector of the user, read as a flag and an identifier: the user, a group or everyone. -/
def UserReads (r : AclRule) (uid : Oid) (groups : List Oid) : Prop :=
  Has r.user individualId ∧ r.userId = uid ∨ Has r.user groupId ∧ r.userId ∈ groups ∨
    Has r.user allId ∧ r.userId = 0

/-- The user of the rule is a selector and an identifier, without other bits. -/
def ExactUser (r : AclRule) : Prop :=
  r.user = individualId ||| r.userId.long ∨ r.user = groupId ||| r.userId.long ∨ r.user = allId

/-- The rule applies in all the zones or in the zone. -/
def ZoneSelects (r : AclRule) (zone : Oid) : Prop :=
  Has r.zone allId ∨ Has r.zone individualId ∧ r.zoneId = zone

/-- The rule is about the object: about all the objects of its type, or the objects of its group, of
one of its clusters or with its identifier.  The flags of the object leave some of them out. -/
def ResourceSelects (r : AclRule) (obj : PoolObjectAuth) : Prop :=
  Has r.resource obj.objType.bits ∧
    (obj.disableAllAcl = false ∧ Has r.resource allId ∨
      obj.disableGroupAcl = false ∧ Has r.resource groupId ∧ r.resourceId = obj.gid ∨
      Has r.resource individualId ∧ r.resourceId = obj.oid ∨
      obj.disableClusterAcl = false ∧ Has r.resource clusterId ∧ r.resourceId ∈ obj.cids)

instance (r : AclRule) (uid : Oid) (groups : List Oid) : Decidable (r.UserSelects uid groups) :=
  inferInstanceAs (Decidable (_ ∨ _ ∨ _))

instance (r : AclRule) (uid : Oid) (groups : List Oid) : Decidable (r.UserReads uid groups) :=
  inferInstanceAs (Decidable (_ ∨ _ ∨ _))

instance (r : AclRule) (zone : Oid) : Decidable (r.ZoneSelects zone) :=
  inferInstanceAs (Decidable (_ ∨ _))

instance (r : AclRule) (obj : PoolObjectAuth) : Decidable (r.ResourceSelects obj) :=
  inferInstanceAs (Decidable (_ ∧ _))

/-- The zone of the rule is written without other bits. -/
def ExactZone (r : AclRule) (zone : Oid) : Prop :=
  r.zone = individualId ||| zone.long ∨ r.zone = allId

/-! ## The user of a rule -/

section User

variable {r : AclRule}

theorem has_of_user_eq {s x : BitVec 64} (h : r.user = s ||| x) : Has r.user s := by
  rw [h]
  exact has_or_left (BitVec.and_self)

/-- A selector that a user without other bits shows is its own, or the identifier is negative and
shows them all. -/
theorem user_eq_of_has {s f : BitVec 64} (hs : Apart s (low 32 64)) (hf : Apart f (low 32 64))
    (hsf : s = f ∨ Apart s f) (hne : f ≠ 0) {id : Oid} (h : r.user = s ||| id.long)
    (hhas : Has r.user f) : r.user = f ||| id.long := by
  rcases hsf with rfl | hsf
  · exact h
  cases hid : id.msb with
  | true =>
    have hor : ∀ g, Apart g (low 32 64) → g ||| id.long = id.long :=
      fun g hg => or_eq_of_has (has_signExtend hid hg)
    rw [h, hor s hs, hor f hf]
  | false =>
    have hlong : id.long = id.setWidth 64 := BitVec.signExtend_eq_setWidth_of_msb_false hid
    have hapart : Apart (id.setWidth 64) f := by
      rw [← setWidth_and_low (by omega) id, Apart, BitVec.and_assoc, BitVec.and_comm (low 32 64), hf]
      exact BitVec.and_zero
    rw [h, hlong] at hhas
    exact absurd hhas (not_has_or hne hsf hapart)

/-- **The lookup by the user** finds the rules that are read so and have no other bits. -/
theorem userSelects_iff (uid : Oid) (groups : List Oid) :
    r.UserSelects uid groups ↔ r.UserReads uid groups ∧ r.ExactUser := by
  have hread : ∀ s, Apart s (low 32 64) → ∀ id : Oid, r.user = s ||| id.long →
      Has r.user s ∧ r.userId = id := by
    intro s hs id h
    refine ⟨has_of_user_eq h, ?_⟩
    rw [userId, h]
    exact setWidth_or_signExtend (by omega) hs id
  have hexact : r.ExactUser → ∀ f, Apart f (low 32 64) → f ≠ 0 →
      (individualId = f ∨ Apart individualId f) → (groupId = f ∨ Apart groupId f) → 
      (allId = f ∨ Apart allId f) → Has r.user f → r.user = f ||| r.userId.long := by
    rintro (h | h | h) f hf hne hind hgroup hall hhas
    · exact user_eq_of_has (by decide) hf hind hne h hhas
    · exact user_eq_of_has (by decide) hf hgroup hne h hhas
    · have hid : r.userId = 0 := by
        rw [userId, h]
        decide
      rw [hid]
      exact user_eq_of_has (by decide) hf hall hne (h.trans (by decide)) hhas
  constructor
  · rintro (h | h | ⟨g, hg, h⟩)
    · have hid : r.userId = 0 := by
        rw [userId, h]
        decide
      exact ⟨Or.inr (Or.inr ⟨has_of_user_eq (x := 0) h, hid⟩), Or.inr (Or.inr h)⟩
    · obtain ⟨hhas, rfl⟩ := hread _ (by decide) uid h
      exact ⟨Or.inl ⟨hhas, rfl⟩, Or.inl h⟩
    · obtain ⟨hhas, rfl⟩ := hread _ (by decide) g h
      exact ⟨Or.inr (Or.inl ⟨hhas, hg⟩), Or.inr (Or.inl h)⟩
  · rintro ⟨⟨hhas, rfl⟩ | ⟨hhas, hg⟩ | ⟨hhas, hid⟩, hex⟩
    · exact Or.inr (Or.inl (hexact hex _ (by decide) (by decide) (by decide) (by decide) (by decide)
        hhas))
    · exact Or.inr (Or.inr ⟨_, hg, hexact hex _ (by decide) (by decide) (by decide) (by decide)
        (by decide) hhas⟩)
    · have h := hexact hex _ (by decide) (by decide) (by decide) (by decide) (by decide) hhas
      rw [hid] at h
      exact Or.inl (h.trans (by decide))
end User

/-! ## Well-formed rules -/

section WellFormed

variable {r : AclRule}

theorem WellFormed.resourceId_msb (h : r.WellFormed) : r.resourceId.msb = false := by
  have hchecks := ((wellFormed_iff r).mp h).2.1
  simp only [resourceChecks, List.forall_mem_cons] at hchecks
  exact hchecks.2.2.2.2.1

theorem WellFormed.zoneId_msb (h : r.WellFormed) : r.zoneId.msb = false := by
  have hchecks := ((wellFormed_iff r).mp h).2.2.2
  simp only [zoneChecks, List.forall_mem_cons] at hchecks
  exact hchecks.2.2.2.1

theorem WellFormed.wrong_type (h : r.WellFormed) : r.resource &&& 0xFE80000000000000 = 0 := by
  have hchecks := ((wellFormed_iff r).mp h).2.1
  simp only [resourceChecks, List.forall_mem_cons, decide_eq_false_iff_not, not_not] at hchecks
  exact hchecks.2.2.2.2.2.2.2.1

theorem WellFormed.not_mixed (h : r.WellFormed) :
    mixed r.resource individualId = false ∧ mixed r.resource groupId = false ∧
      mixed r.resource clusterId = false ∧ mixed r.resource allId = false := by
  have hchecks := ((wellFormed_iff r).mp h).2.1
  simp only [resourceChecks, List.forall_mem_cons, Bool.or_eq_false_iff] at hchecks
  obtain ⟨⟨⟨⟨hind, hgroup⟩, hcluster⟩, hall⟩, -⟩ := hchecks
  exact ⟨hind, hgroup, hcluster, hall⟩

/-- No rule has the bit of `noneId`. -/
theorem WellFormed.not_has_noneId (h : r.WellFormed) : ¬ Has r.resource noneId :=
  not_has_of_and_eq_zero (by decide) (by decide) h.wrong_type

end WellFormed

/-- A selector is there alone. -/
theorem selector_eq {x s : BitVec 64} (hs : s ≠ 0) (h : Has x s) (hmix : mixed x s = false) :
    x &&& 0xF00000000 = s := by
  by_contra hne
  have hset : x &&& s ≠ 0 := by
    rw [h]
    exact hs
  rw [mixed, decide_eq_false_iff_not] at hmix
  exact hmix ⟨hset, hne⟩

/-- Two selectors are not there together. -/
theorem selector_unique {x s s' : BitVec 64} (hs : s ≠ 0) (hs' : s' ≠ 0) (hne : s ≠ s')
    (hmix : mixed x s = false) (hmix' : mixed x s' = false) (h : Has x s) : ¬ Has x s' := by
  intro h'
  apply hne
  rw [← selector_eq hs h hmix, selector_eq hs' h' hmix']

end AclRule

namespace AclManager

variable {m : AclManager} {obj : PoolObjectAuth} {r : AclRule}

/-! ## One rule -/

/-- The comparison of the zone. -/
theorem zone_iff (hr : r.zoneId.msb = false) (zone : Oid) :
    r.zone &&& allId = allId ∨
        r.zone &&& (individualId ||| 0x00000000FFFFFFFF) = individualId ||| zone.long ↔
      r.ZoneSelects zone := by
  rw [and_flags_long_eq_iff (by decide) (by decide) hr]
  rfl

/-- The comparison with a pattern of a type and a selector. -/
theorem resource_iff (hr : r.resourceId.msb = false) (t : ObjectType) {s : BitVec 64}
    (hs : Apart s (low 32 64)) (hmsb : s.msb = false) (id : Oid) :
    r.resource &&& (t.bits ||| s ||| 0x00000000FFFFFFFF) = t.bits ||| s ||| id.long ↔
      Has r.resource t.bits ∧ Has r.resource s ∧ r.resourceId = id := by
  have hor : (t.bits ||| s).msb = false := by rw [BitVec.msb_or, t.msb_bits, hmsb, Bool.or_self]
  rw [and_flags_long_eq_iff (apart_or_left t.bits_apart_low hs) hor hr, has_or_iff, and_assoc]
  rfl

/-- The pattern `noneId` is not matched under the mask of a type and a selector. -/
theorem resource_ne_noneId (x : BitVec 64) (t : ObjectType) {s : BitVec 64} (hs : Apart noneId s) :
    x &&& (t.bits ||| s ||| 0x00000000FFFFFFFF) ≠ noneId := by
  apply and_ne_of_apart (by decide)
  exact apart_or_right (apart_or_right t.noneId_apart_bits hs) (by decide)

theorem all_iff (hnone : ¬ Has r.resource noneId) (op : BitVec 64) :
    r.resource &&& (request obj op).resourceAllReq = (request obj op).resourceAllReq ↔
      obj.disableAllAcl = false ∧ Has r.resource obj.objType.bits ∧ Has r.resource allId := by
  cases hflag : obj.disableAllAcl with
  | false =>
    simp only [request, hflag, Bool.false_eq_true, if_false, true_and, ← has_or_iff]
    rfl
  | true =>
    simp only [request, hflag, if_true, Bool.true_eq_false, false_and, iff_false]
    exact hnone

theorem gid_iff (hr : r.resourceId.msb = false) (op : BitVec 64) :
    r.resource &&& (request obj op).resourceGidMask = (request obj op).resourceGidReq ↔
      obj.disableGroupAcl = false ∧ Has r.resource obj.objType.bits ∧ Has r.resource groupId ∧
        r.resourceId = obj.gid := by
  have hnone := resource_ne_noneId r.resource obj.objType (s := groupId) (by decide)
  have hiff := resource_iff hr obj.objType (s := groupId) (by decide) (by decide) obj.gid
  cases hflag : obj.disableGroupAcl with
  | true =>
    simp only [request, hflag, Bool.or_true, if_true, Bool.true_eq_false, false_and, iff_false]
    exact hnone
  | false =>
    cases hgid : obj.gid.msb with
    | false =>
      simp only [request, hflag, hgid, Bool.or_self, Bool.false_eq_true, if_false, true_and]
      exact hiff
    | true =>
      -- The group is not set: the pattern is `noneId`, and no rule has a negative identifier.
      have hne : r.resourceId ≠ obj.gid := by
        intro heq
        rw [heq, hgid] at hr
        contradiction
      simp only [request, hflag, hgid, Bool.or_false, if_true, hne, and_false, iff_false]
      exact hnone

theorem oid_iff (hr : r.resourceId.msb = false) (op : BitVec 64) :
    r.resource &&& (request obj op).resourceOidMask = (request obj op).resourceOidReq ↔
      Has r.resource obj.objType.bits ∧ Has r.resource individualId ∧ r.resourceId = obj.oid := by
  have hnone := resource_ne_noneId r.resource obj.objType (s := individualId) (by decide)
  have hiff := resource_iff hr obj.objType (s := individualId) (by decide) (by decide) obj.oid
  cases hoid : obj.oid.msb with
  | false =>
    simp only [request, hoid, Bool.false_eq_true, if_false]
    exact hiff
  | true =>
    have hne : r.resourceId ≠ obj.oid := by
      intro heq
      rw [heq, hoid] at hr
      contradiction
    simp only [request, hoid, if_true, hne, and_false, iff_false]
    exact hnone

theorem cid_iff (hr : r.resourceId.msb = false) (op : BitVec 64) :
    matchClusterReq (request obj op).resourceCidReq (request obj op).resourceCidMask r.resource =
        true ↔
      obj.disableClusterAcl = false ∧ Has r.resource obj.objType.bits ∧ Has r.resource clusterId ∧
        r.resourceId ∈ obj.cids := by
  have hiff := resource_iff hr obj.objType (s := clusterId) (by decide) (by decide)
  cases hflag : obj.disableClusterAcl with
  | true => simp [matchClusterReq, request, hflag]
  | false =>
    simp only [matchClusterReq, request, hflag, Bool.false_eq_true, if_false, List.any_map,
      List.any_eq_true, Function.comp_apply, decide_eq_true_eq, hiff]
    constructor
    · rintro ⟨cid, hmem, ht, hs, rfl⟩
      exact ⟨trivial, ht, hs, hmem⟩
    · rintro ⟨-, ht, hs, hmem⟩
      exact ⟨_, hmem, ht, hs, rfl⟩

/-- The comparison of the resource. -/
theorem resourceSelects_iff (hr : r.resourceId.msb = false) (hnone : ¬ Has r.resource noneId)
    (op : BitVec 64) :
    (r.resource &&& (request obj op).resourceAllReq = (request obj op).resourceAllReq ∨
        r.resource &&& (request obj op).resourceGidMask = (request obj op).resourceGidReq ∨
        r.resource &&& (request obj op).resourceOidMask = (request obj op).resourceOidReq ∨
        matchClusterReq (request obj op).resourceCidReq (request obj op).resourceCidMask
          r.resource = true) ↔ r.ResourceSelects obj := by
  rw [all_iff hnone, gid_iff hr, oid_iff hr, cid_iff hr]
  unfold ResourceSelects
  tauto

/-- `match_rules` compares a rule part by part. -/
theorem matchRule_eq_true_iff (req : AclRequest) :
    m.matchRule req r = true ↔
      (r.zone &&& allId = allId ∨
          r.zone &&& (individualId ||| 0x00000000FFFFFFFF) = individualId ||| m.zoneId.long) ∧
        Has r.rights req.rightsReq ∧
        (r.resource &&& req.resourceAllReq = req.resourceAllReq ∨
          r.resource &&& req.resourceGidMask = req.resourceGidReq ∨
          r.resource &&& req.resourceOidMask = req.resourceOidReq ∨
          matchClusterReq req.resourceCidReq req.resourceCidMask r.resource = true) := by
  simp only [matchRule, Bool.and_eq_true, Bool.or_eq_true, decide_eq_true_eq, Has, and_assoc,
    or_assoc]

/-- **A well-formed rule matches a request** when it selects it. -/
theorem matchRule_iff (hr : r.WellFormed) (op : BitVec 64) :
    m.matchRule (request obj op) r = true ↔
      r.ZoneSelects m.zoneId ∧ Has r.rights op ∧ r.ResourceSelects obj := by
  rw [matchRule_eq_true_iff, zone_iff hr.zoneId_msb,
    resourceSelects_iff hr.resourceId_msb hr.not_has_noneId]
  rfl

/-! ## Rules of the permissions -/

section Permissions

variable (obj : PoolObjectAuth) (zone : Oid) (user : BitVec 64) (p : Permissions)

theorem permissionRule_resource_msb (hoid : obj.oid.msb = true) {f : BitVec 64}
    (hf : Apart f (low 32 64)) : Has (obj.permissionRule zone user p).resource f :=
  has_or_right (has_signExtend hoid hf)

theorem resourceId_permissionRule : (obj.permissionRule zone user p).resourceId = obj.oid :=
  setWidth_or_signExtend (by omega) (apart_or_left obj.objType.bits_apart_low (by decide)) obj.oid

theorem zoneId_permissionRule : (obj.permissionRule zone user p).zoneId = zone :=
  setWidth_or_signExtend (by omega) (by decide) zone

/-- The rule of some permissions is about the object. -/
theorem resourceSelects_permissionRule : (obj.permissionRule zone user p).ResourceSelects obj := by
  refine ⟨?_, Or.inr (Or.inr (Or.inl ⟨?_, resourceId_permissionRule obj zone user p⟩))⟩
  · exact has_or_left (has_or_left (BitVec.and_self))
  · exact has_or_left (has_or_right (BitVec.and_self))

theorem zoneSelects_permissionRule : (obj.permissionRule zone user p).ZoneSelects zone :=
  Or.inr ⟨has_or_left (BitVec.and_self), zoneId_permissionRule obj zone user p⟩

/-- **The rule of some permissions matches every request with its rights.**  With a negative
identifier the extended sign sets all the selectors. -/
theorem matchRule_permissionRule (op : BitVec 64) :
    m.matchRule (request obj op) (obj.permissionRule m.zoneId user p) = true ↔ Has p.rights op := by
  rw [matchRule_eq_true_iff]
  constructor
  · rintro ⟨-, hrights, -⟩
    exact hrights
  · intro hrights
    refine ⟨?_, hrights, ?_⟩
    · cases hzone : m.zoneId.msb with
      | false =>
        have hmsb : (obj.permissionRule m.zoneId user p).zoneId.msb = false := by
          rw [zoneId_permissionRule, hzone]
        exact Or.inr ((and_flags_long_eq_iff (by decide) (by decide) hmsb _).mpr
          ⟨has_or_left (BitVec.and_self), zoneId_permissionRule obj m.zoneId user p⟩)
      | true => exact Or.inl (has_or_right (has_signExtend hzone (by decide)))
    · cases hoid : obj.oid.msb with
      | false =>
        have hmsb : (obj.permissionRule m.zoneId user p).resourceId.msb = false := by
          rw [resourceId_permissionRule, hoid]
        refine Or.inr (Or.inr (Or.inl ((oid_iff hmsb op).mpr ?_)))
        refine ⟨has_or_left (has_or_left (BitVec.and_self)), ?_,
          resourceId_permissionRule obj m.zoneId user p⟩
        exact has_or_left (has_or_right (BitVec.and_self))
      | true =>
        have hall : Apart (request obj op).resourceAllReq (low 32 64) := by
          cases hflag : obj.disableAllAcl with
          | true =>
            simp only [request, hflag, if_true]
            decide
          | false =>
            simp only [request, hflag, Bool.false_eq_true, if_false]
            exact apart_or_left obj.objType.bits_apart_low (by decide)
        exact Or.inl (permissionRule_resource_msb obj m.zoneId user p hoid hall)

end Permissions

/-! ## Authorization -/

/-- The rights an operation needs: its number without the lock bit. -/
def needed (op : Operation) : BitVec 64 := op.code &&& 0x0F

/-- The rule selects the request of an operation of a user on an object. -/
def Grants (m : AclManager) (uid : Oid) (groups : List Oid) (obj : PoolObjectAuth) (op : Operation)
    (r : AclRule) : Prop :=
  r.UserSelects uid groups ∧ r.ZoneSelects m.zoneId ∧ Has r.rights (needed op) ∧
    r.ResourceSelects obj

theorem needed_eq (op : Operation) :
    (if op.code &&& 0x10 ≠ 0 then op.code &&& 0x0F else op.code) = needed op := by
  cases op <;> decide

theorem mem_equalRange {rules : List AclRule} {u : BitVec 64} :
    r ∈ equalRange rules u ↔ r ∈ rules ∧ r.user = u := by
  simp [equalRange]

theorem matchRulesWrapper_iff (u : BitVec 64) (req : AclRequest) (tmpRules : List AclRule) :
    m.matchRulesWrapper u req tmpRules = true ↔
      ∃ r ∈ m.aclRules ++ tmpRules, r.user = u ∧ m.matchRule req r = true := by
  simp only [matchRulesWrapper, matchRules, Bool.or_eq_true, List.any_eq_true, mem_equalRange,
    List.mem_append, and_assoc]
  constructor
  · rintro (⟨r, hmem, hu, hmatch⟩ | ⟨r, hmem, hu, hmatch⟩)
    · exact ⟨r, Or.inr hmem, hu, hmatch⟩
    · exact ⟨r, Or.inl hmem, hu, hmatch⟩
  · rintro ⟨r, hmem | hmem, hu, hmatch⟩
    · exact Or.inr ⟨r, hmem, hu, hmatch⟩
    · exact Or.inl ⟨r, hmem, hu, hmatch⟩

/-- `authorize` on an object without lock: some rule for the user matches. -/
theorem authorize_eq_true_iff (uid : Oid) (groups : List Oid) (op : Operation)
    (hlock : obj.locked ≤ 0) :
    m.authorize uid groups obj op = true ↔
      ∃ r ∈ m.aclRules ++ obj.getAclRules m.zoneId,
        r.UserSelects uid groups ∧ m.matchRule (request obj (needed op)) r = true := by
  have hfree : ¬ (op.code &&& 0x10 = 0 ∧ obj.locked > 0 ∧ obj.locked ≤ op.code.toInt) := by
    rintro ⟨-, hpos, -⟩
    omega
  rw [authorize, if_neg hfree]
  simp only [needed_eq, Bool.or_eq_true, List.any_eq_true, matchRulesWrapper_iff]
  constructor
  · rintro ((⟨r, hmem, hu, hmatch⟩ | ⟨r, hmem, hu, hmatch⟩) | ⟨g, hg, r, hmem, hu, hmatch⟩)
    · exact ⟨r, hmem, Or.inl hu, hmatch⟩
    · exact ⟨r, hmem, Or.inr (Or.inl hu), hmatch⟩
    · exact ⟨r, hmem, Or.inr (Or.inr ⟨g, hg, hu⟩), hmatch⟩
  · rintro ⟨r, hmem, hu | hu | ⟨g, hg, hu⟩, hmatch⟩
    · exact Or.inl (Or.inl ⟨r, hmem, hu, hmatch⟩)
    · exact Or.inl (Or.inr ⟨r, hmem, hu, hmatch⟩)
    · exact Or.inr ⟨g, hg, r, hmem, hu, hmatch⟩

/-- Stored rules and rules of the permissions match the requests they select. -/
theorem matchRule_of_mem (hwf : ∀ r ∈ m.aclRules, r.WellFormed)
    (hmem : r ∈ m.aclRules ++ obj.getAclRules m.zoneId) (op : BitVec 64) :
    m.matchRule (request obj op) r = true ↔
      r.ZoneSelects m.zoneId ∧ Has r.rights op ∧ r.ResourceSelects obj := by
  have hperm : ∀ user p, m.matchRule (request obj op) (obj.permissionRule m.zoneId user p) = true ↔
      (obj.permissionRule m.zoneId user p).ZoneSelects m.zoneId ∧ Has p.rights op ∧
        (obj.permissionRule m.zoneId user p).ResourceSelects obj := by
    intro user p
    rw [matchRule_permissionRule]
    have hzone := zoneSelects_permissionRule obj m.zoneId user p
    have hres := resourceSelects_permissionRule obj m.zoneId user p
    tauto
  rcases List.mem_append.mp hmem with hstored | htmp
  · exact matchRule_iff (hwf r hstored) op
  · simp only [PoolObjectAuth.getAclRules, List.mem_cons, List.not_mem_nil, or_false] at htmp
    rcases htmp with rfl | rfl | rfl
    · exact hperm _ _
    · exact hperm _ _
    · exact hperm _ _

/-- An object without lock: the request is granted when a rule selects it. -/
theorem authorize_iff_grants (uid : Oid) (groups : List Oid) (op : Operation)
    (hwf : ∀ r ∈ m.aclRules, r.WellFormed) (hlock : obj.locked ≤ 0) :
    m.authorize uid groups obj op = true ↔
      ∃ r ∈ m.aclRules ++ obj.getAclRules m.zoneId, m.Grants uid groups obj op r := by
  rw [authorize_eq_true_iff uid groups op hlock]
  constructor
  · rintro ⟨r, hmem, hu, hmatch⟩
    exact ⟨r, hmem, hu, (matchRule_of_mem hwf hmem _).mp hmatch⟩
  · rintro ⟨r, hmem, hu, hsel⟩
    exact ⟨r, hmem, hu, (matchRule_of_mem hwf hmem _).mpr hsel⟩

/-- The rule is for the user, a group of the user or everyone, as its user is read; it applies in the
zone or in all the zones; it has the rights of the operation and the type of the object; and it is
about the object, its group, one of its clusters or all the objects. -/
def Selects (m : AclManager) (uid : Oid) (groups : List Oid) (obj : PoolObjectAuth) (op : Operation)
    (r : AclRule) : Prop :=
  r.UserReads uid groups ∧
    (Has r.zone individualId ∧ r.zoneId = m.zoneId ∨ Has r.zone allId) ∧
    Has r.rights (needed op) ∧
    Has r.resource obj.objType.bits ∧
    (Has r.resource individualId ∧ r.resourceId = obj.oid ∨
      Has r.resource groupId ∧ r.resourceId = obj.gid ∨
      Has r.resource clusterId ∧ r.resourceId ∈ obj.cids ∨
      Has r.resource allId)

/-- Without flags of the object, a rule grants what it selects if its user has no other bits. -/
theorem grants_iff_selects (uid : Oid) (groups : List Oid) (op : Operation)
    (hall : obj.disableAllAcl = false) (hcluster : obj.disableClusterAcl = false)
    (hgroup : obj.disableGroupAcl = false) :
    m.Grants uid groups obj op r ↔ r.ExactUser ∧ m.Selects uid groups obj op r := by
  unfold Grants Selects ZoneSelects ResourceSelects
  rw [userSelects_iff]
  simp only [hall, hcluster, hgroup, true_and]
  constructor
  · rintro ⟨⟨hread, hexact⟩, hz, hrights, ht, hres⟩
    exact ⟨hexact, hread, hz.symm, hrights, ht, by tauto⟩
  · rintro ⟨hexact, hread, hz, hrights, ht, hres⟩
    exact ⟨⟨hread, hexact⟩, hz.symm, hrights, ht, by tauto⟩

/-- The rules of the permissions have no other bits in their users. -/
theorem exactUser_getAclRules {zone : Oid} (hr : r ∈ obj.getAclRules zone) : r.ExactUser := by
  have hid : ∀ s : BitVec 64, Apart s (low 32 64) → ∀ id : Oid, (s ||| id.long).setWidth 32 = id :=
    fun s hs id => setWidth_or_signExtend (by omega) hs id
  simp only [PoolObjectAuth.getAclRules, List.mem_cons, List.not_mem_nil, or_false] at hr
  rcases hr with rfl | rfl | rfl
  · exact Or.inl (congrArg (individualId ||| Oid.long ·) (hid _ (by decide) obj.uid).symm)
  · exact Or.inr (Or.inl (congrArg (groupId ||| Oid.long ·) (hid _ (by decide) obj.gid).symm))
  · exact Or.inr (Or.inr rfl)

/-- **Authorization.**  With well-formed stored rules, and an object without lock and without flags,
`authorize` grants an operation when some rule, stored or from the permissions of the object, selects
the request, and only then, exactly if each stored rule that selects the request with other bits in
its user comes with a rule that does so without them. -/
theorem authorize_iff_selects_iff (m : AclManager) (uid : Oid) (groups : List Oid)
    (obj : PoolObjectAuth) (op : Operation) (hwf : ∀ r ∈ m.aclRules, r.WellFormed)
    (hlock : obj.locked = 0) (hall : obj.disableAllAcl = false)
    (hcluster : obj.disableClusterAcl = false) (hgroup : obj.disableGroupAcl = false) :
    (m.authorize uid groups obj op = true ↔
        ∃ r ∈ m.aclRules ++ obj.getAclRules m.zoneId, m.Selects uid groups obj op r) ↔
      ∀ r ∈ m.aclRules, m.Selects uid groups obj op r → ¬ r.ExactUser →
        ∃ r' ∈ m.aclRules ++ obj.getAclRules m.zoneId,
          r'.ExactUser ∧ m.Selects uid groups obj op r' := by
  have hgrant : m.authorize uid groups obj op = true ↔
      ∃ r ∈ m.aclRules ++ obj.getAclRules m.zoneId,
        r.ExactUser ∧ m.Selects uid groups obj op r := by
    rw [authorize_iff_grants uid groups op hwf (by omega)]
    exact exists_congr fun r =>
      and_congr_right fun _ => grants_iff_selects uid groups op hall hcluster hgroup
  rw [hgrant]
  constructor
  · intro h r hmem hsel _
    exact h.mpr ⟨r, List.mem_append_left _ hmem, hsel⟩
  · intro h
    constructor
    · rintro ⟨r, hmem, -, hsel⟩
      exact ⟨r, hmem, hsel⟩
    · rintro ⟨r, hmem, hsel⟩
      by_cases hexact : r.ExactUser
      · exact ⟨r, hmem, hexact, hsel⟩
      · rcases List.mem_append.mp hmem with hstored | hperm
        · exact h r hstored hsel hexact
        · exact absurd (exactUser_getAclRules hperm) hexact

/-- A rule for the group 1: the networks of the cluster 100, in all the zones. -/
def clusterRule : AclRule where
  oid := 7
  user := groupId ||| 1
  resource := ObjectType.net.bits ||| clusterId ||| 100
  rights := 0x1
  zone := allId

/-- The network 3 of the cluster 100. -/
def clusterNet : PoolObjectAuth where
  objType := .net
  oid := 3
  uid := 0
  gid := 0
  cids := [0, 100]
  owner := ⟨1, 1, 0⟩
  group := ⟨0, 0, 0⟩
  other := ⟨0, 0, 0⟩
  disableAllAcl := false
  disableClusterAcl := false
  disableGroupAcl := false
  locked := 0

theorem authorize_clusterNet :
    (∀ r ∈ [clusterRule], r.WellFormed) ∧
      (AclManager.mk 0 [clusterRule]).authorize 5 [1] clusterNet .useNoLck = true := by
  refine ⟨by decide, ((authorize_iff_selects_iff ⟨0, [clusterRule]⟩ 5 [1] clusterNet .useNoLck
    (by decide) rfl rfl rfl rfl).mpr ?_).mpr ?_⟩
  · intro r hmem _ hexact
    rw [List.mem_singleton.mp hmem] at hexact
    exact absurd (Or.inr (Or.inl (by decide))) hexact
  · exact ⟨clusterRule, by simp, by decide, by decide, by decide, by decide, by decide⟩

/-- A rule for the user 1 and the machines, which reads `#1 VM/* USE *`.  The bit 40 of its user is
set. -/
def strayRule : AclRule where
  oid := 8
  user := 0x10100000001
  resource := ObjectType.vm.bits ||| allId
  rights := 0x1
  zone := allId

/-- A machine without permissions. -/
def closedVm : PoolObjectAuth :=
  { clusterNet with objType := .vm, cids := [], owner := ⟨0, 0, 0⟩ }

/-- **A rule for nobody.**  It is accepted, it reads as a rule for the user 1 that selects the machine,
and the user 1 is not authorized. -/
theorem not_authorize_strayRule :
    strayRule.WellFormed ∧ strayRule.toStr = "#1 VM/* USE *" ∧
      ¬ ((AclManager.mk 0 [strayRule]).authorize 1 [1] closedVm .use = true ↔
        ∃ r ∈ [strayRule] ++ closedVm.getAclRules 0,
          (AclManager.mk 0 [strayRule]).Selects 1 [1] closedVm .use r) := by
  refine ⟨by decide, by decide, fun h => ?_⟩
  have hsel : (AclManager.mk 0 [strayRule]).Selects 1 [1] closedVm .use strayRule :=
    ⟨by decide, by decide, by decide, by decide, by decide⟩
  have hauth := h.mpr ⟨strayRule, List.mem_cons_self, hsel⟩
  exact absurd hauth (by decide)

/-! ## Search -/

/-- The search that goes with an operation on an object. -/
def searchFor (obj : PoolObjectAuth) (op : Operation) : Search where
  objType := obj.objType
  op := op
  disableAllAcl := obj.disableAllAcl
  disableClusterAcl := obj.disableClusterAcl
  disableGroupAcl := obj.disableGroupAcl

theorem grantsAll_iff (op : Operation) :
    grantsAll (searchFor obj op) r = true ↔
      obj.disableAllAcl = false ∧ Has r.resource obj.objType.bits ∧ Has r.resource allId := by
  simp only [← has_or_iff, grantsAll, Bool.and_eq_true, Bool.not_eq_true', decide_eq_true_eq]
  rfl

theorem grantsGroup_iff (op : Operation) :
    grantsGroup (searchFor obj op) r = true ↔
      obj.disableGroupAcl = false ∧ Has r.resource obj.objType.bits ∧ Has r.resource groupId := by
  simp only [← has_or_iff, grantsGroup, Bool.and_eq_true, Bool.not_eq_true', decide_eq_true_eq]
  rfl

theorem grantsCluster_iff (op : Operation) :
    grantsCluster (searchFor obj op) r = true ↔
      obj.disableClusterAcl = false ∧ Has r.resource obj.objType.bits ∧
        Has r.resource clusterId := by
  simp only [← has_or_iff, grantsCluster, Bool.and_eq_true, Bool.not_eq_true', decide_eq_true_eq]
  rfl

theorem grantsObject_iff (op : Operation) :
    grantsObject (searchFor obj op) r = true ↔
      Has r.resource obj.objType.bits ∧ Has r.resource individualId := by
  simp only [← has_or_iff, grantsObject, decide_eq_true_eq]
  rfl

/-- What the search does with a rule that applies. -/
def collect (q : Search) (r : AclRule) (f : Found) : Found :=
  if grantsAll q r then { f with all := true }
  else if grantsGroup q r then { f with gids := f.gids ++ [r.resourceId] }
  else if grantsCluster q r then { f with cids := f.cids ++ [r.resourceId] }
  else if grantsObject q r then { f with oids := f.oids ++ [r.resourceId] }
  else f

theorem covers_gids (f : Found) (id : Oid) :
    { f with gids := f.gids ++ [id] }.Covers obj ↔ f.Covers obj ∨ id = obj.gid := by
  simp only [Found.Covers, List.mem_append, List.mem_singleton, eq_comm (a := obj.gid), or_assoc,
    or_comm (a := id = obj.gid)]

theorem covers_oids (f : Found) (id : Oid) :
    { f with oids := f.oids ++ [id] }.Covers obj ↔ f.Covers obj ∨ id = obj.oid := by
  simp only [Found.Covers, List.mem_append, List.mem_singleton, eq_comm (a := obj.oid), or_assoc,
    or_comm (a := id = obj.oid)]

theorem covers_cids (f : Found) (id : Oid) :
    { f with cids := f.cids ++ [id] }.Covers obj ↔ f.Covers obj ∨ id ∈ obj.cids := by
  simp only [Found.Covers, List.mem_append, List.mem_singleton, and_or_left, exists_or,
    exists_eq_right, or_assoc]

/-- A rule adds the objects it selects. -/
theorem covers_collect (hr : r.WellFormed) (op : Operation) (f : Found) :
    (collect (searchFor obj op) r f).Covers obj ↔ f.Covers obj ∨ r.ResourceSelects obj := by
  obtain ⟨hind, hgrp, hclu, hall⟩ := hr.not_mixed
  unfold collect
  split_ifs with h1 h2 h3 h4
  · obtain ⟨hflag, ht, hs⟩ := (grantsAll_iff op).mp h1
    have hsel : r.ResourceSelects obj := ⟨ht, Or.inl ⟨hflag, hs⟩⟩
    simp [Found.Covers, hsel]
  · obtain ⟨hflag, ht, hs⟩ := (grantsGroup_iff op).mp h2
    have hsel : r.ResourceSelects obj ↔ r.resourceId = obj.gid := by
      simp [ResourceSelects, hflag, ht, hs,
        selector_unique (by decide) (by decide) (by decide) hgrp hall hs,
        selector_unique (by decide) (by decide) (by decide) hgrp hind hs,
        selector_unique (by decide) (by decide) (by decide) hgrp hclu hs]
    rw [hsel, covers_gids]
  · obtain ⟨hflag, ht, hs⟩ := (grantsCluster_iff op).mp h3
    have hsel : r.ResourceSelects obj ↔ r.resourceId ∈ obj.cids := by
      simp [ResourceSelects, hflag, ht, hs,
        selector_unique (by decide) (by decide) (by decide) hclu hall hs,
        selector_unique (by decide) (by decide) (by decide) hclu hind hs,
        selector_unique (by decide) (by decide) (by decide) hclu hgrp hs]
    rw [hsel, covers_cids]
  · obtain ⟨ht, hs⟩ := (grantsObject_iff op).mp h4
    have hsel : r.ResourceSelects obj ↔ r.resourceId = obj.oid := by
      simp [ResourceSelects, ht, hs,
        selector_unique (by decide) (by decide) (by decide) hind hall hs,
        selector_unique (by decide) (by decide) (by decide) hind hgrp hs,
        selector_unique (by decide) (by decide) (by decide) hind hclu hs]
    rw [hsel, covers_oids]
  · rw [grantsAll_iff] at h1
    rw [grantsGroup_iff] at h2
    rw [grantsCluster_iff] at h3
    rw [grantsObject_iff] at h4
    have hsel : ¬ r.ResourceSelects obj := by
      rintro ⟨ht, ⟨hflag, hs⟩ | ⟨hflag, hs, -⟩ | ⟨hs, -⟩ | ⟨hflag, hs, -⟩⟩
      · exact h1 ⟨hflag, ht, hs⟩
      · exact h2 ⟨hflag, ht, hs⟩
      · exact h4 ⟨ht, hs⟩
      · exact h3 ⟨hflag, ht, hs⟩
    simp [hsel]

/-- A rule that applies is collected; the loop goes on unless it is for all the objects. -/
theorem searchRules_cons (q : Search) (rules : List AclRule) (f : Found)
    (happ : m.applies q r = true) :
    m.searchRules q (r :: rules) f =
      if grantsAll q r then collect q r f else m.searchRules q rules (collect q r f) := by
  rw [searchRules, if_pos happ, collect]
  split_ifs <;> rfl

/-- The inner loop covers what the rules that apply select.  It stops at a rule for all the objects,
which covers the object already. -/
theorem covers_searchRules (op : Operation) (rules : List AclRule) :
    (∀ r ∈ rules, r.WellFormed) → ∀ f,
      ((m.searchRules (searchFor obj op) rules f).Covers obj ↔ f.Covers obj ∨
        ∃ r ∈ rules, m.applies (searchFor obj op) r = true ∧ r.ResourceSelects obj) := by
  induction rules with
  | nil =>
    intro _ f
    simp [searchRules]
  | cons r rules ih =>
    intro hwf f
    have hstep : (collect (searchFor obj op) r f).Covers obj ↔
        f.Covers obj ∨ r.ResourceSelects obj :=
      covers_collect (hwf r List.mem_cons_self) op f
    have htail := ih fun r' hr' => hwf r' (List.mem_cons_of_mem _ hr')
    rw [List.exists_mem_cons_iff]
    by_cases happ : m.applies (searchFor obj op) r = true
    · rw [searchRules_cons _ _ _ happ]
      split_ifs with hall
      · have hsel : r.ResourceSelects obj := by
          obtain ⟨hflag, ht, hs⟩ := (grantsAll_iff op).mp hall
          exact ⟨ht, Or.inl ⟨hflag, hs⟩⟩
        simp [hstep, happ, hsel]
      · rw [htail, hstep, or_assoc]
        simp only [happ, true_and]
    · rw [searchRules, if_neg happ, htail]
      simp only [happ, Bool.false_eq_true, false_and, false_or]

theorem covers_trim (f : Found) : f.trim.Covers obj ↔ f.Covers obj := by
  unfold Found.trim
  split_ifs with h
  · simp [Found.Covers, h]
  · rfl

/-- The outer loop, over the keys of the rules of the user. -/
theorem covers_foldl (op : Operation) (hwf : ∀ r ∈ m.aclRules, r.WellFormed)
    (reqs : List (BitVec 64)) :
    ∀ f, ((reqs.foldl (fun f u => (m.searchRules (searchFor obj op) (equalRange m.aclRules u) f).trim)
        f).Covers obj ↔ f.Covers obj ∨ ∃ r ∈ m.aclRules, r.user ∈ reqs ∧
          m.applies (searchFor obj op) r = true ∧ r.ResourceSelects obj) := by
  induction reqs with
  | nil => simp
  | cons u reqs ih =>
    intro f
    have hrange : ∀ r ∈ equalRange m.aclRules u, r.WellFormed :=
      fun r hr => hwf r (mem_equalRange.mp hr).1
    rw [List.foldl_cons, ih, covers_trim, covers_searchRules op _ hrange, or_assoc]
    simp only [mem_equalRange, List.mem_cons, and_assoc, or_and_right, and_or_left, exists_or]

theorem mem_userReqs (uid : Oid) (groups : List Oid) :
    r.user ∈ userReqs uid groups ↔ r.UserSelects uid groups := by
  simp only [userReqs, UserSelects, List.mem_append, List.mem_cons, List.not_mem_nil, or_false,
    List.mem_map, or_assoc, eq_comm]

/-- **Search.**  The result covers an object when a stored rule for the user selects it, with the
whole number of the operation in its rights and the exact word of the zone. -/
theorem covers_reverseSearch (uid : Oid) (groups : List Oid) (op : Operation)
    (hwf : ∀ r ∈ m.aclRules, r.WellFormed) :
    (m.reverseSearch uid groups (searchFor obj op)).Covers obj ↔
      ∃ r ∈ m.aclRules, r.UserSelects uid groups ∧ Has r.rights op.code ∧ r.ExactZone m.zoneId ∧
        r.ResourceSelects obj := by
  have hempty : ¬ (⟨false, [], [], []⟩ : Found).Covers obj := by simp [Found.Covers]
  have happ : ∀ r, m.applies (searchFor obj op) r = true ↔
      Has r.rights op.code ∧ r.ExactZone m.zoneId := by
    intro r
    simp only [applies, Bool.and_eq_true, Bool.or_eq_true, decide_eq_true_eq]
    rfl
  rw [reverseSearch, covers_foldl op hwf]
  simp only [hempty, false_or, mem_userReqs, happ, and_assoc]

/-! ## Agreement of the two -/

/-- The object grants nothing by its own permissions. -/
def Closed (obj : PoolObjectAuth) : Prop :=
  obj.owner.rights = 0 ∧ obj.group.rights = 0 ∧ obj.other.rights = 0

theorem has_zero_needed_iff (op : Operation) : Has 0 (needed op) ↔ op = .none := by
  cases op <;> decide

theorem has_code_needed {x : BitVec 64} {op : Operation} (h : Has x op.code) : Has x (needed op) := by
  have hsplit : op.code = needed op ||| op.code &&& 0x10 := by cases op <;> decide
  rw [hsplit, has_or_iff] at h
  exact h.1

/-- A zone that is written without other bits selects the same zone. -/
theorem zoneSelects_of_exact (h : r.ExactZone m.zoneId) :
    r.ZoneSelects m.zoneId := by
  rcases h with h | h
  · refine Or.inr ⟨?_, ?_⟩
    · rw [h]
      exact has_or_left (BitVec.and_self)
    · rw [AclRule.zoneId, h]
      exact setWidth_or_signExtend (by omega) (by decide) m.zoneId
  · refine Or.inl ?_
    rw [h]
    exact BitVec.and_self

/-- A zone that is one zone without other bits selects that zone only. -/
theorem exact_of_individual {z zone : Oid} (hr : r.WellFormed)
    (hz : r.zone = individualId ||| z.long) (h : r.ZoneSelects zone) :
    r.zone = individualId ||| zone.long := by
  have hid : r.zoneId = z := by
    rw [AclRule.zoneId, hz]
    exact setWidth_or_signExtend (by omega) (by decide) z
  have hmsb : z.msb = false := by
    rw [← hid]
    exact hr.zoneId_msb
  rcases h with hall | ⟨-, heq⟩
  · -- The word of a zone that is not negative has no other selector.
    have hnot : ¬ Has (individualId ||| z.long) allId := by
      apply not_has_of_and_eq_zero (m := allId) (by decide) (by decide)
      have hlong : z.long = z.setWidth 64 := BitVec.signExtend_eq_setWidth_of_msb_false hmsb
      have hlow : z.setWidth 64 &&& low 32 64 = z.setWidth 64 := setWidth_and_low (by omega) z
      rw [hlong, ← hlow, BitVec.and_comm, BitVec.and_or_distrib_left]
      have h1 : allId &&& individualId = 0 := by decide
      have h2 : allId &&& (z.setWidth 64 &&& low 32 64) = 0 := by
        have h3 : allId &&& low 32 64 = 0 := by decide
        rw [BitVec.and_comm (z.setWidth 64), ← BitVec.and_assoc, h3]
        simp
      rw [h1, h2]
      rfl
    rw [hz] at hall
    exact absurd hall hnot
  · rw [hz, ← hid, heq]

/-- The rules of an object that grants nothing match nothing but the operation without rights. -/
theorem authorize_of_closed (uid : Oid) (groups : List Oid) (op : Operation)
    (hwf : ∀ r ∈ m.aclRules, r.WellFormed) (hlock : obj.locked ≤ 0) (hclosed : Closed obj) :
    m.authorize uid groups obj op = true ↔
      op = .none ∨ ∃ r ∈ m.aclRules, m.Grants uid groups obj op r := by
  rw [authorize_iff_grants uid groups op hwf hlock]
  constructor
  · rintro ⟨r, hmem, hgrants⟩
    rcases List.mem_append.mp hmem with hstored | htmp
    · exact Or.inr ⟨r, hstored, hgrants⟩
    · refine Or.inl ((has_zero_needed_iff op).mp ?_)
      have hrights : r.rights = 0 := by
        obtain ⟨howner, hgroup, hother⟩ := hclosed
        simp only [PoolObjectAuth.getAclRules, List.mem_cons, List.not_mem_nil, or_false] at htmp
        rcases htmp with rfl | rfl | rfl
        · exact howner
        · exact hgroup
        · exact hother
      rw [← hrights]
      exact hgrants.2.2.1
  · rintro (rfl | ⟨r, hmem, hgrants⟩)
    · -- The rule of the others is for everyone, and it has all the rights of no operation.
      refine ⟨obj.permissionRule m.zoneId allId obj.other, ?_, Or.inl rfl,
        zoneSelects_permissionRule obj m.zoneId allId obj.other, ?_,
        resourceSelects_permissionRule obj m.zoneId allId obj.other⟩
      · simp [PoolObjectAuth.getAclRules]
      · simp [Has, needed, Operation.code]
    · exact ⟨r, List.mem_append_left _ hmem, hgrants⟩

/-- The check of one object and the search agree on it. -/
def Agrees (m : AclManager) (uid : Oid) (groups : List Oid) (obj : PoolObjectAuth) (op : Operation) :
    Prop :=
  m.authorize uid groups obj op = true ↔
    (m.reverseSearch uid groups (searchFor obj op)).Covers obj

instance (m : AclManager) (uid : Oid) (groups : List Oid) (obj : PoolObjectAuth) (op : Operation) :
    Decidable (m.Agrees uid groups obj op) :=
  inferInstanceAs (Decidable (_ ↔ _))

/-- The operations that respect the locks. -/
def Lockable (op : Operation) : Prop := op = .use ∨ op = .manage ∨ op = .admin ∨ op = .create

theorem needed_of_lockable {op : Operation} (h : Lockable op) : needed op = op.code := by
  rcases h with rfl | rfl | rfl | rfl <;> decide

theorem ne_none_of_lockable {op : Operation} (h : Lockable op) : op ≠ .none := by
  rcases h with rfl | rfl | rfl | rfl <;> decide

/-- What the search covers, `authorize` grants. -/
theorem grants_of_found (uid : Oid) (groups : List Oid) (op : Operation)
    (h : r.UserSelects uid groups ∧ Has r.rights op.code ∧ r.ExactZone m.zoneId ∧
      r.ResourceSelects obj) : m.Grants uid groups obj op r :=
  ⟨h.1, zoneSelects_of_exact h.2.2.1, has_code_needed h.2.1, h.2.2.2⟩

/-- **The check of one object and the search agree** on an object that is not locked and grants
nothing by itself, exactly when no stored rule grants the operation, or one that does has the exact
word of the zone and all the bits of the operation in its rights.  So they agree for the operations
that respect the locks when the zones of the stored rules are written without other bits. -/
theorem agrees_iff_exact (m : AclManager) (uid : Oid) (groups : List Oid) (obj : PoolObjectAuth)
    (op : Operation) (hwf : ∀ r ∈ m.aclRules, r.WellFormed) (hlock : obj.locked ≤ 0)
    (hclosed : Closed obj) :
    (m.Agrees uid groups obj op ↔
      (op ≠ .none ∧ ∀ r ∈ m.aclRules, ¬ m.Grants uid groups obj op r) ∨
        ∃ r ∈ m.aclRules, m.Grants uid groups obj op r ∧ Has r.rights op.code ∧
          r.ExactZone m.zoneId) ∧
    (Lockable op → (∀ r ∈ m.aclRules, r.zone = allId ∨ ∃ z : Oid, r.zone = individualId ||| z.long) →
      m.Agrees uid groups obj op) := by
  have hiff : m.Agrees uid groups obj op ↔
      (op ≠ .none ∧ ∀ r ∈ m.aclRules, ¬ m.Grants uid groups obj op r) ∨
        ∃ r ∈ m.aclRules, m.Grants uid groups obj op r ∧ Has r.rights op.code ∧
          r.ExactZone m.zoneId := by
    rw [Agrees, authorize_of_closed uid groups op hwf hlock hclosed, covers_reverseSearch uid groups
      op hwf]
    constructor
    · intro hagree
      by_cases hnone : op ≠ .none ∧ ∀ r ∈ m.aclRules, ¬ m.Grants uid groups obj op r
      · exact Or.inl hnone
      · have hauth : op = .none ∨ ∃ r ∈ m.aclRules, m.Grants uid groups obj op r := by
          by_contra hcon
          push Not at hcon
          exact hnone hcon
        obtain ⟨r, hmem, hfound⟩ := hagree.mp hauth
        exact Or.inr ⟨r, hmem, grants_of_found uid groups op hfound, hfound.2.1,
          hfound.2.2.1⟩
    · rintro (⟨hop, hnone⟩ | ⟨r, hmem, hgrants, hrights, hzone⟩)
      · constructor
        · rintro (h | ⟨r, hmem, hgrants⟩)
          · exact absurd h hop
          · exact absurd hgrants (hnone r hmem)
        · rintro ⟨r, hmem, hfound⟩
          exact absurd (grants_of_found uid groups op hfound) (hnone r hmem)
      · constructor
        · intro _
          exact ⟨r, hmem, hgrants.1, hrights, hzone, hgrants.2.2.2⟩
        · intro _
          exact Or.inr ⟨r, hmem, hgrants⟩
  refine ⟨hiff, fun hop hzones => hiff.mpr ?_⟩
  by_cases hex : ∃ r ∈ m.aclRules, m.Grants uid groups obj op r
  · obtain ⟨r, hmem, hgrants⟩ := hex
    have hrights : Has r.rights op.code := by
      rw [← needed_of_lockable hop]
      exact hgrants.2.2.1
    refine Or.inr ⟨r, hmem, hgrants, hrights, ?_⟩
    rcases hzones r hmem with hall | ⟨z, hz⟩
    · exact Or.inr hall
    · exact Or.inl (exact_of_individual (hwf r hmem) hz hgrants.2.1)
  · push Not at hex
    exact Or.inl ⟨ne_none_of_lockable hop, hex⟩

/-- The network of the cluster, without permissions. -/
def closedNet : PoolObjectAuth := { clusterNet with owner := ⟨0, 0, 0⟩ }

/-- The rule of the cluster, with a zone that has the bit of the clusters too. -/
def wideZoneRule : AclRule := { clusterRule with zone := allId ||| clusterId }

theorem agrees_clusterNet :
    Lockable .use ∧ (AclManager.mk 0 [clusterRule]).Agrees 5 [1] closedNet .use :=
  ⟨Or.inl rfl, (agrees_iff_exact ⟨0, [clusterRule]⟩ 5 [1] closedNet .use (by decide) (by decide)
    ⟨by decide, by decide, by decide⟩).2 (Or.inl rfl) (by decide)⟩

/-- **The search misses what `authorize` grants**: an operation without lock, because its bit 0x10
stays in the comparison of the rights, and a well-formed rule whose zone has another bit. -/
theorem search_misses_granted :
    (clusterRule.WellFormed ∧ Closed closedNet ∧
      (AclManager.mk 0 [clusterRule]).authorize 5 [1] closedNet .useNoLck = true ∧
      ¬ ((AclManager.mk 0 [clusterRule]).reverseSearch 5 [1]
        (searchFor closedNet .useNoLck)).Covers closedNet) ∧
    (wideZoneRule.WellFormed ∧
      (AclManager.mk 0 [wideZoneRule]).authorize 5 [1] closedNet .use = true ∧
      ¬ ((AclManager.mk 0 [wideZoneRule]).reverseSearch 5 [1]
        (searchFor closedNet .use)).Covers closedNet) := by
  have hwf : ∀ r ∈ [clusterRule], r.WellFormed := by decide
  have hwide : ∀ r ∈ [wideZoneRule], r.WellFormed := by decide
  refine ⟨⟨by decide, ⟨by decide, by decide, by decide⟩, ?_, ?_⟩, by decide, ?_, ?_⟩
  · refine (authorize_iff_grants 5 [1] .useNoLck hwf (by decide)).mpr
      ⟨clusterRule, by simp, Or.inr (Or.inr ⟨1, by simp, rfl⟩), by decide, by decide, by decide⟩
  · rw [covers_reverseSearch 5 [1] .useNoLck hwf]
    rintro ⟨r, hmem, -, hrights, -⟩
    rw [List.mem_singleton.mp hmem] at hrights
    exact absurd hrights (by decide)
  · refine (authorize_iff_grants 5 [1] .use hwide (by decide)).mpr
      ⟨wideZoneRule, by simp, Or.inr (Or.inr ⟨1, by simp, rfl⟩), by decide, by decide, by decide⟩
  · rw [covers_reverseSearch 5 [1] .use hwide]
    rintro ⟨r, hmem, -, -, hzone, -⟩
    rw [List.mem_singleton.mp hmem] at hzone
    rcases hzone with hzone | hzone
    · exact absurd hzone (by decide)
    · exact absurd hzone (by decide)

end AclManager
