/-
# The store of the access control rules (`src/acl/AclManager.cc`)

The stored rules are in two indexes, by user (`aclRules`) and by identifier (`aclRulesOids`), and in
the table of the database.  `addRule` and `delRule` change the three together; the other deletions
collect identifiers and call `delRule` for each one; `select` loads the indexes from the table.
`Consistent` says that the three hold the same rules: it holds in every state of a run in which each
load reads the whole table (`consistent_of_loaded`).

Conventions of the embedding:

* `acl_rules_oids` is the list of its entries.  An insertion does not replace an entry.
* The table enforces its keys: the identifier, and the four numbers of a rule.
* Every statement may fail.  A write that fails changes nothing; a read that fails may have delivered
  some rows.  How the statements end is a parameter of the operation.
-/
import OpenNebula.AclManager
import OpenNebula.Transition

open AclRule

/-- The indexes of the rules, the table of the rules and the last identifier in the database. -/
structure AclStore extends AclManager where
  aclRulesOids : List (ℤ × AclRule)
  isFederationSlave : Bool
  table : List AclRule
  lastOid : ℤ

namespace AclStore

/-! ## Operations -/

/-- How the statements of `add_rule` end. -/
structure AddSql where
  readOk : Bool
  insertOk : Bool
  setOk : Bool

/-- What an operation returns: its code and its error. -/
structure Reply where
  rc : ℤ
  error : Option String

/-- `get_lastOID`: it is -1 when it is not read. -/
def getLastOid (s : AclStore) (readOk : Bool) : ℤ := if readOk then s.lastOid else -1

/-- The identifier of a new rule. -/
def nextOid (last : ℤ) : ℤ := if last = 2 ^ 31 - 1 then 0 else last + 1

/-- The keys of the table allow the row. -/
def keysAllow (table : List AclRule) (r : AclRule) : Bool :=
  table.all fun row => row.oid ≠ r.oid && !row.same r

/-- Insertion in a map by identifier. -/
def insertOid (oids : List (ℤ × AclRule)) (r : AclRule) : List (ℤ × AclRule) :=
  if oids.any fun p => p.1 = r.oid then oids else oids ++ [(r.oid, r)]

/-- `AclManager::add_rule`. -/
def addRule (s : AclStore) (user resource rights zone : BitVec 64) (sql : AddSql) :
    Reply × AclStore :=
  if s.isFederationSlave then (⟨-1, none⟩, s)
  else
    let oid := nextOid (s.getLastOid sql.readOk)
    let rule : AclRule := ⟨oid, user, resource, rights, zone⟩
    if (equalRange s.aclRules user).any fun r => r.same rule then
      (⟨-1, some ("Rule " ++ rule.toStr ++ " already exists")⟩, s)
    else
      match rule.malformed with
      | some error => (⟨-2, some ("Rule " ++ rule.toStr ++ " is malformed: " ++ error)⟩, s)
      | none =>
        if sql.insertOk && keysAllow s.table rule then
          (⟨oid, none⟩, { s with
            aclRules := s.aclRules ++ [rule]
            aclRulesOids := insertOid s.aclRulesOids rule
            table := s.table ++ [rule]
            lastOid := if sql.setOk then oid else s.lastOid })
        else (⟨-3, some "Error inserting rule in DB"⟩, s)

/-- `AclManager::del_rule` with an identifier. -/
def delRule (s : AclStore) (oid : ℤ) (dropOk : Bool) : Reply × AclStore :=
  if s.isFederationSlave then (⟨-1, none⟩, s)
  else
    match s.aclRulesOids.find? fun p => p.1 = oid with
    | none => (⟨-1, some ("Rule " ++ toString oid ++ " does not exist")⟩, s)
    | some (_, rule) =>
      if (equalRange s.aclRules rule.user).any fun r => rule.same r then
        if dropOk then
          (⟨0, none⟩, { s with
            aclRules := s.aclRules.eraseP fun r => r.user = rule.user && rule.same r
            aclRulesOids := s.aclRulesOids.filter fun p => p.1 ≠ oid
            table := s.table.filter fun row => row.oid ≠ oid })
        else (⟨-1, some "SQL DB error"⟩, s)
      else (⟨-1, none⟩, s)

/-- `AclManager::del_rule` with the numbers of the rule. -/
def delRuleBy (s : AclStore) (user resource rights zone : BitVec 64) (dropOk : Bool) :
    Reply × AclStore :=
  let rule : AclRule := ⟨-1, user, resource, rights, zone⟩
  match (equalRange s.aclRules user).find? fun r => r.same rule with
  | some r => if r.oid ≠ -1 then s.delRule r.oid dropOk else (⟨-1, some "Rule does not exist"⟩, s)
  | none => (⟨-1, some "Rule does not exist"⟩, s)

/-- The rules in the order of the multimap. -/
def inOrder (rules : List AclRule) : List AclRule :=
  rules.mergeSort fun r r' => r.user.sle r'.user

/-- The loop that deletes some identifiers. -/
def delOids (s : AclStore) (oids : List ℤ) (dropOk : ℕ → Bool) : AclStore :=
  oids.zipIdx.foldl (fun s p => (s.delRule p.1 (dropOk p.2)).2) s

/-- `AclManager::del_user_matching_rules`. -/
def delUserMatchingRules (s : AclStore) (userReq : BitVec 64) (dropOk : ℕ → Bool) : AclStore :=
  s.delOids ((equalRange s.aclRules userReq).map AclRule.oid) dropOk

/-- `AclManager::del_resource_matching_rules`. -/
def delResourceMatchingRules (s : AclStore) (resourceReq resourceMask : BitVec 64)
    (dropOk : ℕ → Bool) : AclStore :=
  s.delOids (((inOrder s.aclRules).filter fun r => r.resource &&& resourceMask = resourceReq).map
    AclRule.oid) dropOk

/-- `AclManager::del_zone_matching_rules`. -/
def delZoneMatchingRules (s : AclStore) (zoneReq : BitVec 64) (dropOk : ℕ → Bool) : AclStore :=
  s.delOids (((inOrder s.aclRules).filter fun r => r.zone = zoneReq).map AclRule.oid) dropOk

/-- `AclManager::del_uid_rules`. -/
def delUidRules (s : AclStore) (uid : Oid) (dropOk : ℕ → Bool) : AclStore :=
  s.delUserMatchingRules (individualId ||| uid.long) dropOk

/-- `AclManager::del_gid_rules`: the rules for the group, then the rules about it. -/
def delGidRules (s : AclStore) (gid : Oid) (dropOk dropOk' : ℕ → Bool) : AclStore :=
  (s.delUserMatchingRules (groupId ||| gid.long) dropOk).delResourceMatchingRules
    (groupId ||| gid.long) (groupId ||| 0x00000000FFFFFFFF) dropOk'

/-- `AclManager::del_cid_rules`. -/
def delCidRules (s : AclStore) (cid : Oid) (dropOk : ℕ → Bool) : AclStore :=
  s.delResourceMatchingRules (clusterId ||| cid.long) (clusterId ||| 0x00000000FFFFFFFF) dropOk

/-- `AclManager::del_zid_rules`. -/
def delZidRules (s : AclStore) (zid : Oid) (dropOk : ℕ → Bool) : AclStore :=
  s.delZoneMatchingRules (individualId ||| zid.long) dropOk

/-- `AclManager::del_resource_rules`. -/
def delResourceRules (s : AclStore) (oid : Oid) (objType : ObjectType) (dropOk : ℕ → Bool) :
    AclStore :=
  s.delResourceMatchingRules (objType.bits ||| individualId ||| oid.long) 0xFFFFFFFFFFFFFFFF dropOk

/-- `AclManager::select_cb`: one row. -/
def selectCb (s : AclStore) (row : AclRule) : AclStore :=
  { s with aclRules := s.aclRules ++ [row], aclRulesOids := insertOid s.aclRulesOids row }

/-- `AclManager::select`: the indexes are cleared before the read.  A read that fails delivers some
rows only. -/
def select (s : AclStore) (failsAfter : Option ℕ) : AclStore :=
  let rows := match failsAfter with
    | none => s.table
    | some k => s.table.take k
  rows.foldl selectCb { s with aclRules := [], aclRulesOids := [] }

/-- `AclManager::AclManager`: the rules of a new database. -/
def create (zone : Oid) (slave : Bool) (table : List AclRule) (lastOid : ℤ) (readOk : Bool)
    (sql₁ sql₂ sql₃ : AddSql) : AclStore :=
  let s : AclStore := ⟨⟨zone, []⟩, [], slave, table, lastOid⟩
  if slave then s
  else if s.getLastOid readOk = -1 then
    let s₁ := (s.addRule (groupId ||| 1) (allId ||| bitsOf [.vm, .image, .template, .document,
      .secgroup, .vmgroup, .backupjob]) Operation.create.code allId sql₁).2
    let s₂ := (s₁.addRule allId (allId ||| bitsOf [.zone]) Operation.use.code allId sql₂).2
    (s₂.addRule allId (allId ||| bitsOf [.marketplace, .marketplaceapp]) Operation.use.code allId
      sql₃).2
  else s

/-! ## Runs -/

/-- The operations on the store. -/
inductive Op where
  | addRule (user resource rights zone : BitVec 64) (sql : AddSql)
  | delRule (oid : ℤ) (dropOk : Bool)
  | delRuleBy (user resource rights zone : BitVec 64) (dropOk : Bool)
  | delUidRules (uid : Oid) (dropOk : ℕ → Bool)
  | delGidRules (gid : Oid) (dropOk dropOk' : ℕ → Bool)
  | delCidRules (cid : Oid) (dropOk : ℕ → Bool)
  | delZidRules (zid : Oid) (dropOk : ℕ → Bool)
  | delResourceRules (oid : Oid) (objType : ObjectType) (dropOk : ℕ → Bool)
  | reloadRules (failsAfter : Option ℕ)

/-- The state after an operation. -/
def apply (s : AclStore) : Op → AclStore
  | .addRule user resource rights zone sql => (s.addRule user resource rights zone sql).2
  | .delRule oid dropOk => (s.delRule oid dropOk).2
  | .delRuleBy user resource rights zone dropOk => (s.delRuleBy user resource rights zone dropOk).2
  | .delUidRules uid dropOk => s.delUidRules uid dropOk
  | .delGidRules gid dropOk dropOk' => s.delGidRules gid dropOk dropOk'
  | .delCidRules cid dropOk => s.delCidRules cid dropOk
  | .delZidRules zid dropOk => s.delZidRules zid dropOk
  | .delResourceRules oid objType dropOk => s.delResourceRules oid objType dropOk
  | .reloadRules failsAfter => s.select failsAfter

/-- One operation of a run. -/
def step (s : AclStore) (op : Op) : Option AclStore := some (s.apply op)

/-! ## Consistency -/

/-- What a rule says, without its identifier. -/
def content (r : AclRule) : BitVec 64 × BitVec 64 × BitVec 64 × BitVec 64 :=
  (r.user, r.resource, r.rights, r.zone)

theorem same_iff (r r' : AclRule) : r.same r' = true ↔ content r = content r' := by
  simp [same, content]

/-- The entry of a rule in the index by identifier. -/
def entry (r : AclRule) : ℤ × AclRule := (r.oid, r)

/-- The keys of the table. -/
def TableKeys (table : List AclRule) : Prop :=
  (table.map AclRule.oid).Nodup ∧ (table.map content).Nodup

instance (table : List AclRule) : Decidable (TableKeys table) := inferInstanceAs (Decidable (_ ∧ _))

/-- The two indexes and the table hold the same rules; no two rules have the same identifier and no
two rules say the same. -/
structure Consistent (s : AclStore) : Prop where
  index : s.aclRulesOids.Perm (s.aclRules.map entry)
  table : s.table.Perm s.aclRules
  oids : (s.aclRules.map AclRule.oid).Nodup
  contents : (s.aclRules.map content).Nodup

theorem eraseP_eq_filter {α β γ : Type*} [DecidableEq β] [DecidableEq γ] (f : α → β) (g : α → γ)
    {a : α} (l : List α) : (l.map f).Nodup → (l.map g).Nodup → a ∈ l →
      l.eraseP (fun x => f x = f a) = l.filter fun x => g x ≠ g a := by
  induction l with
  | nil =>
    intro _ _ hmem
    simp at hmem
  | cons x l ih =>
    intro hf hg hmem
    simp only [List.map_cons, List.nodup_cons, List.mem_map, not_exists, not_and] at hf hg
    rcases List.mem_cons.mp hmem with rfl | htail
    · rw [List.eraseP_cons_of_pos (by simp), List.filter_cons_of_neg (by simp)]
      refine (List.filter_eq_self.mpr ?_).symm
      intro y hy
      simpa using hg.1 y hy
    · have hfx : f x ≠ f a := fun h => hf.1 a htail h.symm
      have hgx : g x ≠ g a := fun h => hg.1 a htail h.symm
      rw [List.eraseP_cons_of_neg (by simpa using hfx), List.filter_cons_of_pos (by simpa using hgx),
        ih hf.2 hg.2 htail]

section Steps

variable {s : AclStore}

theorem insertOid_of_fresh {oids : List (ℤ × AclRule)} {r : AclRule}
    (h : ∀ p ∈ oids, p.1 ≠ r.oid) : insertOid oids r = oids ++ [entry r] := by
  rw [insertOid, if_neg]
  · rfl
  · rw [List.any_eq_true]
    rintro ⟨p, hp, heq⟩
    exact h p hp (of_decide_eq_true heq)

/-- A rule that the keys allow is added to the three. -/
theorem Consistent.insert (h : s.Consistent) {r : AclRule} (hkeys : keysAllow s.table r = true)
    (last : ℤ) :
    Consistent { s with
      aclRules := s.aclRules ++ [r]
      aclRulesOids := insertOid s.aclRulesOids r
      table := s.table ++ [r]
      lastOid := last } := by
  have hnew : ∀ row ∈ s.aclRules, row.oid ≠ r.oid ∧ content row ≠ content r := by
    intro row hrow
    have hall := List.all_eq_true.mp hkeys row (h.table.mem_iff.mpr hrow)
    rw [Bool.and_eq_true, Bool.not_eq_true'] at hall
    refine ⟨by simpa using hall.1, ?_⟩
    rw [Ne, ← same_iff, hall.2]
    exact Bool.false_ne_true
  have hfresh : ∀ p ∈ s.aclRulesOids, p.1 ≠ r.oid := by
    intro p hp
    obtain ⟨row, hrow, rfl⟩ := List.mem_map.mp (h.index.mem_iff.mp hp)
    exact (hnew row hrow).1
  refine ⟨?_, h.table.append_right [r], ?_, ?_⟩
  · rw [insertOid_of_fresh hfresh, List.map_append]
    exact h.index.append_right _
  · rw [List.map_append, List.nodup_append]
    refine ⟨h.oids, by simp, ?_⟩
    rintro a ha b hb rfl
    obtain ⟨row, hrow, rfl⟩ := List.mem_map.mp ha
    rw [List.map_singleton, List.mem_singleton] at hb
    exact (hnew row hrow).1 hb
  · rw [List.map_append, List.nodup_append]
    refine ⟨h.contents, by simp, ?_⟩
    rintro a ha b hb rfl
    obtain ⟨row, hrow, rfl⟩ := List.mem_map.mp ha
    rw [List.map_singleton, List.mem_singleton] at hb
    exact (hnew row hrow).2 hb

/-- A stored rule is removed from the three. -/
theorem Consistent.remove (h : s.Consistent) {rule : AclRule} (hmem : rule ∈ s.aclRules) :
    Consistent { s with
      aclRules := s.aclRules.eraseP fun r => r.user = rule.user && rule.same r
      aclRulesOids := s.aclRulesOids.filter fun p => p.1 ≠ rule.oid
      table := s.table.filter fun row => row.oid ≠ rule.oid } := by
  have hpred : (fun r : AclRule => decide (r.user = rule.user) && rule.same r) =
      fun r => decide (content r = content rule) := by
    funext r
    rw [Bool.eq_iff_iff, Bool.and_eq_true, same_iff, decide_eq_true_eq, decide_eq_true_eq,
      eq_comm (a := content rule)]
    constructor
    · exact fun hr => hr.2
    · intro hr
      exact ⟨congrArg Prod.fst hr, hr⟩
  have herase : s.aclRules.eraseP (fun r => decide (r.user = rule.user) && rule.same r) =
      s.aclRules.filter fun r => r.oid ≠ rule.oid := by
    rw [hpred]
    exact eraseP_eq_filter content AclRule.oid _ h.contents h.oids hmem
  have hsub := List.filter_sublist (p := fun r : AclRule => decide (r.oid ≠ rule.oid))
    (l := s.aclRules)
  rw [← herase] at hsub
  refine ⟨?_, ?_, h.oids.sublist (hsub.map _), h.contents.sublist (hsub.map _)⟩
  · have hfilter := h.index.filter fun p => decide (p.1 ≠ rule.oid)
    rw [List.filter_map] at hfilter
    rw [herase]
    exact hfilter
  · rw [herase]
    exact h.table.filter _

/-- What `add_rule` does: nothing, or the rule is added to the three. -/
theorem addRule_cases (user resource rights zone : BitVec 64) (sql : AddSql) :
    ((s.addRule user resource rights zone sql).2 = s ∧
        (s.addRule user resource rights zone sql).1.rc < 0) ∨
      ∃ r last, keysAllow s.table r = true ∧ r.oid = nextOid (s.getLastOid sql.readOk) ∧
        (last = r.oid ∨ last = s.lastOid) ∧
        s.addRule user resource rights zone sql = (⟨r.oid, none⟩, { s with
          aclRules := s.aclRules ++ [r]
          aclRulesOids := insertOid s.aclRulesOids r
          table := s.table ++ [r]
          lastOid := last }) := by
  unfold addRule
  split
  · exact Or.inl ⟨rfl, by norm_num⟩
  · dsimp only
    split
    · exact Or.inl ⟨rfl, by norm_num⟩
    · split
      · exact Or.inl ⟨rfl, by norm_num⟩
      · split
        · rename_i hok
          rw [Bool.and_eq_true] at hok
          refine Or.inr ⟨_, if sql.setOk then _ else s.lastOid, hok.2, rfl, ?_, rfl⟩
          cases sql.setOk
          · exact Or.inr rfl
          · exact Or.inl rfl
        · exact Or.inl ⟨rfl, by norm_num⟩

/-- What `del_rule` does: nothing, or the rule of the identifier is removed from the three. -/
theorem delRule_cases (oid : ℤ) (dropOk : Bool) :
    ((s.delRule oid dropOk).2 = s ∧ (s.delRule oid dropOk).1.rc < 0) ∨
      ∃ rule, (oid, rule) ∈ s.aclRulesOids ∧
        s.delRule oid dropOk = (⟨0, none⟩, { s with
          aclRules := s.aclRules.eraseP fun r => r.user = rule.user && rule.same r
          aclRulesOids := s.aclRulesOids.filter fun p => p.1 ≠ oid
          table := s.table.filter fun row => row.oid ≠ oid }) := by
  unfold delRule
  split
  · exact Or.inl ⟨rfl, by norm_num⟩
  · split
    · exact Or.inl ⟨rfl, by norm_num⟩
    · rename_i key rule hfind
      split
      · split
        · have hkey : key = oid := by simpa using List.find?_some hfind
          refine Or.inr ⟨rule, ?_, rfl⟩
          rw [← hkey]
          exact List.mem_of_find?_eq_some hfind
        · exact Or.inl ⟨rfl, by norm_num⟩
      · exact Or.inl ⟨rfl, by norm_num⟩

/-- Deletion by the numbers of a rule is deletion by identifier, or it fails. -/
theorem delRuleBy_cases (user resource rights zone : BitVec 64) (dropOk : Bool) :
    ((s.delRuleBy user resource rights zone dropOk).2 = s ∧
        (s.delRuleBy user resource rights zone dropOk).1.rc < 0) ∨
      ∃ oid, s.delRuleBy user resource rights zone dropOk = s.delRule oid dropOk := by
  unfold delRuleBy
  dsimp only
  split
  · split
    · exact Or.inr ⟨_, rfl⟩
    · exact Or.inl ⟨rfl, by norm_num⟩
  · exact Or.inl ⟨rfl, by norm_num⟩

theorem Consistent.addRule (h : s.Consistent) (user resource rights zone : BitVec 64)
    (sql : AddSql) : (s.addRule user resource rights zone sql).2.Consistent := by
  rcases addRule_cases (s := s) user resource rights zone sql with
    ⟨heq, -⟩ | ⟨r, last, hkeys, -, -, heq⟩
  · rw [heq]
    exact h
  · rw [heq]
    exact h.insert hkeys last

theorem Consistent.delRule (h : s.Consistent) (oid : ℤ) (dropOk : Bool) :
    (s.delRule oid dropOk).2.Consistent := by
  rcases delRule_cases (s := s) oid dropOk with ⟨heq, -⟩ | ⟨rule, hmem, heq⟩
  · rw [heq]
    exact h
  · obtain ⟨r, hr, hentry⟩ := List.mem_map.mp (h.index.mem_iff.mp hmem)
    obtain ⟨rfl, rfl⟩ := Prod.mk.inj hentry
    rw [heq]
    exact h.remove hr

theorem Consistent.delRuleBy (h : s.Consistent) (user resource rights zone : BitVec 64)
    (dropOk : Bool) : (s.delRuleBy user resource rights zone dropOk).2.Consistent := by
  rcases delRuleBy_cases (s := s) user resource rights zone dropOk with ⟨heq, -⟩ | ⟨oid, heq⟩
  · rw [heq]
    exact h
  · rw [heq]
    exact h.delRule oid dropOk

/-- The loops over identifiers. -/
theorem Consistent.foldl_delRule (dropOk : ℕ → Bool) (l : List (ℤ × ℕ)) :
    ∀ s : AclStore, s.Consistent →
      (l.foldl (fun s p => (s.delRule p.1 (dropOk p.2)).2) s).Consistent := by
  induction l with
  | nil => exact fun _ h => h
  | cons p l ih => exact fun s h => ih _ (h.delRule p.1 (dropOk p.2))

theorem Consistent.delOids (h : s.Consistent) (oids : List ℤ) (dropOk : ℕ → Bool) :
    (s.delOids oids dropOk).Consistent :=
  Consistent.foldl_delRule dropOk _ s h

/-- Loading rows whose identifiers are not there yet. -/
theorem foldl_selectCb (rows : List AclRule) :
    ∀ s : AclStore, s.aclRulesOids = s.aclRules.map entry →
      ((s.aclRules ++ rows).map AclRule.oid).Nodup →
      rows.foldl selectCb s = { s with
        aclRules := s.aclRules ++ rows
        aclRulesOids := (s.aclRules ++ rows).map entry } := by
  induction rows with
  | nil =>
    intro s hindex _
    simp [← hindex]
  | cons row rows ih =>
    intro s hindex hnodup
    have hfresh : ∀ p ∈ s.aclRulesOids, p.1 ≠ row.oid := by
      intro p hp
      rw [hindex] at hp
      obtain ⟨r, hr, rfl⟩ := List.mem_map.mp hp
      rw [List.map_append, List.nodup_append] at hnodup
      exact hnodup.2.2 _ (List.mem_map_of_mem hr) _ (by simp)
    have hcb : s.selectCb row = { s with
        aclRules := s.aclRules ++ [row]
        aclRulesOids := (s.aclRules ++ [row]).map entry } := by
      rw [selectCb, insertOid_of_fresh hfresh, hindex, List.map_append]
      rfl
    rw [List.foldl_cons, ih]
    · rw [hcb]
      simp
    · rw [hcb]
    · rw [hcb]
      simpa using hnodup

/-- **A load that reads the whole table** makes the indexes the table. -/
theorem select_none (hkeys : TableKeys s.table) :
    s.select none = { s with aclRules := s.table, aclRulesOids := s.table.map entry } := by
  unfold select
  rw [foldl_selectCb _ _ rfl (by simpa using hkeys.1)]
  rfl

theorem Consistent.of_select (hkeys : TableKeys s.table) : (s.select none).Consistent := by
  rw [select_none hkeys]
  exact ⟨List.Perm.refl _, List.Perm.refl _, hkeys.1, hkeys.2⟩

theorem Consistent.tableKeys (h : s.Consistent) : TableKeys s.table :=
  ⟨(h.table.map AclRule.oid).nodup_iff.mpr h.oids, (h.table.map content).nodup_iff.mpr h.contents⟩

/-- The load reads the whole table. -/
def Loads : Op → Prop
  | .reloadRules failsAfter => failsAfter = none
  | _ => True

theorem Consistent.apply (h : s.Consistent) {op : Op} (hop : Loads op) :
    (s.apply op).Consistent := by
  cases op with
  | addRule user resource rights zone sql => exact h.addRule user resource rights zone sql
  | delRule oid dropOk => exact h.delRule oid dropOk
  | delRuleBy user resource rights zone dropOk => exact h.delRuleBy user resource rights zone dropOk
  | delUidRules uid dropOk => exact h.delOids _ dropOk
  | delGidRules gid dropOk dropOk' => exact (h.delOids _ dropOk).delOids _ dropOk'
  | delCidRules cid dropOk => exact h.delOids _ dropOk
  | delZidRules zid dropOk => exact h.delOids _ dropOk
  | delResourceRules oid objType dropOk => exact h.delOids _ dropOk
  | reloadRules failsAfter =>
    obtain rfl : failsAfter = none := hop
    exact Consistent.of_select h.tableKeys

/-! ## The start -/

theorem TableKeys.addRule (h : TableKeys s.table) (user resource rights zone : BitVec 64)
    (sql : AddSql) : TableKeys (s.addRule user resource rights zone sql).2.table := by
  rcases addRule_cases (s := s) user resource rights zone sql with
    ⟨heq, -⟩ | ⟨r, last, hkeys, -, -, heq⟩
  · rw [heq]
    exact h
  · rw [heq]
    -- The table alone is a consistent store.
    have hself : Consistent { s with aclRules := s.table, aclRulesOids := s.table.map entry } :=
      ⟨List.Perm.refl _, List.Perm.refl _, h.1, h.2⟩
    exact (hself.insert hkeys last).tableKeys

/-- A store after `start`: it has read the whole table, whose keys are enforced. -/
def Started (s : AclStore) : Prop :=
  ∃ zone slave table lastOid readOk sql₁ sql₂ sql₃, TableKeys table ∧ -1 ≤ lastOid ∧
    s = (create zone slave table lastOid readOk sql₁ sql₂ sql₃).select none

theorem le_nextOid {last : ℤ} (h : -1 ≤ last) : 0 ≤ nextOid last := by
  unfold nextOid
  split
  · exact le_refl 0
  · omega

theorem le_getLastOid (h : -1 ≤ s.lastOid) (readOk : Bool) : -1 ≤ s.getLastOid readOk := by
  unfold getLastOid
  split
  · exact h
  · exact le_refl _

theorem le_lastOid_addRule (h : -1 ≤ s.lastOid) (user resource rights zone : BitVec 64)
    (sql : AddSql) : -1 ≤ (s.addRule user resource rights zone sql).2.lastOid := by
  rcases addRule_cases (s := s) user resource rights zone sql with
    ⟨heq, -⟩ | ⟨r, last, -, hoid, hlast, heq⟩
  · rw [heq]
    exact h
  · rw [heq]
    have hnext := le_nextOid (le_getLastOid h sql.readOk)
    rcases hlast with rfl | rfl
    · change -1 ≤ r.oid
      omega
    · exact h

theorem lastOid_delRule (oid : ℤ) (dropOk : Bool) :
    (s.delRule oid dropOk).2.lastOid = s.lastOid := by
  rcases delRule_cases (s := s) oid dropOk with ⟨heq, -⟩ | ⟨rule, -, heq⟩
  · rw [heq]
  · rw [heq]

theorem lastOid_delOids (oids : List ℤ) (dropOk : ℕ → Bool) :
    (s.delOids oids dropOk).lastOid = s.lastOid := by
  unfold delOids
  induction oids.zipIdx generalizing s with
  | nil => rfl
  | cons p l ih => rw [List.foldl_cons, ih, lastOid_delRule]

theorem lastOid_foldl_selectCb (rows : List AclRule) :
    ∀ s : AclStore, (rows.foldl selectCb s).lastOid = s.lastOid := by
  induction rows with
  | nil => exact fun _ => rfl
  | cons row rows ih => exact fun s => ih (s.selectCb row)

theorem lastOid_select (failsAfter : Option ℕ) : (s.select failsAfter).lastOid = s.lastOid :=
  lastOid_foldl_selectCb _ _

theorem le_lastOid_apply (h : -1 ≤ s.lastOid) (op : Op) : -1 ≤ (s.apply op).lastOid := by
  cases op with
  | addRule user resource rights zone sql => exact le_lastOid_addRule h user resource rights zone sql
  | delRule oid dropOk =>
    rw [AclStore.apply, lastOid_delRule]
    exact h
  | delRuleBy user resource rights zone dropOk =>
    rcases delRuleBy_cases (s := s) user resource rights zone dropOk with ⟨heq, -⟩ | ⟨oid, heq⟩
    · rw [AclStore.apply, heq]
      exact h
    · rw [AclStore.apply, heq, lastOid_delRule]
      exact h
  | delUidRules uid dropOk => exact (lastOid_delOids (s := s) _ dropOk).symm ▸ h
  | delGidRules gid dropOk dropOk' =>
    rw [AclStore.apply, delGidRules, delResourceMatchingRules, lastOid_delOids,
      delUserMatchingRules, lastOid_delOids]
    exact h
  | delCidRules cid dropOk => exact (lastOid_delOids (s := s) _ dropOk).symm ▸ h
  | delZidRules zid dropOk => exact (lastOid_delOids (s := s) _ dropOk).symm ▸ h
  | delResourceRules oid objType dropOk => exact (lastOid_delOids (s := s) _ dropOk).symm ▸ h
  | reloadRules failsAfter =>
    rw [AclStore.apply, lastOid_select]
    exact h

/-- What the constructor does with the database. -/
theorem create_keys (zone : Oid) (slave : Bool) {table : List AclRule} {lastOid : ℤ} (readOk : Bool)
    (sql₁ sql₂ sql₃ : AddSql) (hkeys : TableKeys table) (hlast : -1 ≤ lastOid) :
    TableKeys (create zone slave table lastOid readOk sql₁ sql₂ sql₃).table ∧
      -1 ≤ (create zone slave table lastOid readOk sql₁ sql₂ sql₃).lastOid := by
  unfold create
  dsimp only
  split
  · exact ⟨hkeys, hlast⟩
  · split
    · refine ⟨?_, ?_⟩
      · apply TableKeys.addRule
        apply TableKeys.addRule
        apply TableKeys.addRule
        exact hkeys
      · apply le_lastOid_addRule
        apply le_lastOid_addRule
        apply le_lastOid_addRule
        exact hlast
    · exact ⟨hkeys, hlast⟩

theorem Started.consistent (h : s.Started) : s.Consistent ∧ -1 ≤ s.lastOid := by
  obtain ⟨zone, slave, table, lastOid, readOk, sql₁, sql₂, sql₃, hkeys, hlast, rfl⟩ := h
  obtain ⟨hkeys', hlast'⟩ := create_keys zone slave readOk sql₁ sql₂ sql₃ hkeys hlast
  refine ⟨Consistent.of_select hkeys', ?_⟩
  rw [lastOid_select]
  exact hlast'

end Steps

/-- An addition or a deletion that fails changes nothing. -/
def FailuresKeep (s : AclStore) : Prop :=
  (∀ user resource rights zone sql, (s.addRule user resource rights zone sql).1.rc < 0 →
      (s.addRule user resource rights zone sql).2 = s) ∧
    (∀ oid dropOk, (s.delRule oid dropOk).1.rc < 0 → (s.delRule oid dropOk).2 = s) ∧
    ∀ user resource rights zone dropOk, (s.delRuleBy user resource rights zone dropOk).1.rc < 0 →
      (s.delRuleBy user resource rights zone dropOk).2 = s

theorem failuresKeep_of_le {s : AclStore} (hlast : -1 ≤ s.lastOid) : s.FailuresKeep := by
  have hdel : ∀ oid dropOk, (s.delRule oid dropOk).1.rc < 0 → (s.delRule oid dropOk).2 = s := by
    intro oid dropOk hrc
    rcases delRule_cases (s := s) oid dropOk with ⟨heq, -⟩ | ⟨rule, -, heq⟩
    · exact heq
    · rw [heq] at hrc
      exact absurd hrc (by norm_num)
  refine ⟨?_, hdel, ?_⟩
  · intro user resource rights zone sql hrc
    rcases addRule_cases (s := s) user resource rights zone sql with
      ⟨heq, -⟩ | ⟨r, last, -, hoid, -, heq⟩
    · exact heq
    · -- The code of an addition is the new identifier, which is not negative.
      have hnext := le_nextOid (le_getLastOid hlast sql.readOk)
      rw [heq] at hrc
      change r.oid < 0 at hrc
      omega
  · intro user resource rights zone dropOk hrc
    rcases delRuleBy_cases (s := s) user resource rights zone dropOk with ⟨heq, -⟩ | ⟨oid, heq⟩
    · exact heq
    · rw [heq] at hrc ⊢
      exact hdel oid dropOk hrc

/-- **The store of the rules.**  In every state of a run whose loads read the whole table, the two
indexes and the table hold the same rules, with one identifier for each rule and no two rules that
say the same; and an addition or a deletion that fails changes nothing. -/
theorem consistent_of_loaded {s₀ s : AclStore} (hstart : s₀.Started)
    (hrun : Transition.Reach step (fun _ op => Loads op) s₀ s) : s.Consistent ∧ s.FailuresKeep := by
  have hinv : s.Consistent ∧ -1 ≤ s.lastOid := by
    refine hrun.inv (P := fun s => s.Consistent ∧ -1 ≤ s.lastOid) hstart.consistent ?_
    rintro t op t' ⟨hcons, hlast⟩ hop hstep
    obtain rfl : t.apply op = t' := Option.some.inj hstep
    exact ⟨hcons.apply hop, le_lastOid_apply hlast op⟩
  exact ⟨hinv.1, failuresKeep_of_le hinv.2⟩

/-- The users of the group 1 may use the networks of the cluster 100. -/
def clusterUse : AclRule where
  oid := 0
  user := groupId ||| 1
  resource := ObjectType.net.bits ||| clusterId ||| 100
  rights := 0x1
  zone := allId

/-- A store that starts with one rule. -/
def oneRule : AclStore := ⟨⟨0, [clusterUse]⟩, [(0, clusterUse)], false, [clusterUse], 0⟩

theorem started_oneRule : oneRule.Started :=
  ⟨0, false, [clusterUse], 0, true, ⟨true, true, true⟩, ⟨true, true, true⟩, ⟨true, true, true⟩,
    by decide, by decide, rfl⟩

/-- A rule is added, the table is loaded, and the rules of the group 1 are deleted. -/
def loadedRun : List Op :=
  [.addRule allId (allId ||| ObjectType.zone.bits) 0x1 allId ⟨true, true, false⟩,
    .reloadRules none, .delGidRules 1 (fun _ => true) (fun _ => true)]

theorem consistent_loadedRun :
    ∃ s, Transition.runEvents step oneRule loadedRun = some s ∧ s.Consistent ∧ s.FailuresKeep := by
  refine ⟨_, rfl, consistent_of_loaded started_oneRule ?_⟩
  refine Transition.reach_of_runEvents (P := Loads) loadedRun ?_ rfl
  intro op hop
  simp only [loadedRun, List.mem_cons, List.not_mem_nil, or_false] at hop
  rcases hop with rfl | rfl | rfl
  · trivial
  · exact (rfl : (none : Option ℕ) = none)
  · trivial

/-- **A load that fails empties the indexes**: the table keeps its rule. -/
theorem inconsistent_after_failed_load :
    oneRule.Started ∧ ∃ s, Transition.Run step oneRule s ∧ s.aclRules = [] ∧
      s.aclRulesOids = [] ∧ s.table = [clusterUse] ∧ ¬ s.Consistent := by
  refine ⟨started_oneRule, oneRule.select (some 0), ?_, rfl, rfl, rfl, ?_⟩
  · exact Transition.Reach.tail Transition.Reach.refl (e := .reloadRules (some 0)) trivial rfl
  · intro h
    exact absurd h.table.length_eq (by decide)

end AclStore
