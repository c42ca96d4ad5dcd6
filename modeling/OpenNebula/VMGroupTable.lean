/-
# The table of roles along a run

`Sound` is what the table of a group is meant to be: both maps have the same roles, each under its own
`ID` and `NAME`, there are few of them, no identifier is too big for the bit sets of the rules, and the
text of the table is read back as the same table.

The code does not keep it in every run: `add_role` does not look at `MAX_ROLES`, `update_role` writes any
`ID` and an empty `NAME` into a role, and a creation with too many roles goes on with deleted attributes.
`Allowed` leaves these steps out, and the attributes that cannot be stored as XML.  `Inv` is the invariant
that the other steps keep (`Inv.exec`).
-/
import OpenNebula.VMGroup

open XmlText TextList Transition

namespace VMGroup

/-! ## Roles -/

/-- A role in good order: it has its identifier, a name and values that can be stored, and the attribute
`VMS` has its virtual machines. -/
structure RoleOk (id : ℤ) (r : VMGroupRole) : Prop where
  id : r.id = some id
  name : r.name ≠ []
  storable : r.va.Storable
  vms : r.va.vectorValue attrVms = joinIds r.vms
  sorted : r.vms.Pairwise (· < ·)
  ints : ∀ vm ∈ r.vms, IsInt vm

theorem id_ne_name : attrId ≠ attrName := by decide

theorem vms_ne_id : attrVms ≠ attrId := by decide

theorem vms_ne_name : attrVms ≠ attrName := by decide

theorem isName_attrId : isName attrId = true := by decide

theorem isName_attrVms : isName attrVms = true := by decide

theorem isName_attrName : isName attrName = true := by decide

/-! ### Texts of numbers -/

theorem hasEnd_of_notMem {t : Text} (h : '>' ∉ t) : hasEnd t = false := by
  induction t with
  | nil => rfl
  | cons c t ih =>
    unfold hasEnd
    split
    · rename_i heq
      rw [heq] at h
      exact absurd h (by simp)
    · rename_i heq
      rw [← (List.cons.inj heq).2]
      exact ih fun hmem => h (List.mem_cons_of_mem _ hmem)
    · rfl

theorem toNat_of_isDigitOf {base : ℕ} {c : Char} (h : TextNumber.isDigitOf base c = true) :
    48 ≤ c.toNat ∧ c.toNat ≤ 102 := by
  unfold TextNumber.isDigitOf TextNumber.digitValue at h
  split_ifs at h with h1 h2 h3
  · have hlow : 48 ≤ c.toNat := h1.1
    have hhigh : c.toNat ≤ 57 := h1.2
    omega
  · have hlow : 97 ≤ c.toNat := h2.1
    have hhigh : c.toNat ≤ 102 := h2.2
    omega
  · have hlow : 65 ≤ c.toNat := h3.1
    have hhigh : c.toNat ≤ 70 := h3.2
    omega

theorem isValue_of_chars {t : Text}
    (h : ∀ c ∈ t, c = '-' ∨ c = ',' ∨ TextNumber.isDigitOf 10 c = true) : isValue t = true := by
  have hchar : ∀ c ∈ t, isXmlChar c = true ∧ c ≠ '>' := by
    intro c hc
    rcases h c hc with rfl | rfl | hdigit
    · exact ⟨by decide, by decide⟩
    · exact ⟨by decide, by decide⟩
    · obtain ⟨hlow, hhigh⟩ := toNat_of_isDigitOf hdigit
      refine ⟨?_, ?_⟩
      · simp only [isXmlChar, Bool.or_eq_true, Bool.and_eq_true, decide_eq_true_eq]
        exact Or.inl (Or.inr ⟨by omega, by omega⟩)
      · rintro rfl
        exact absurd hdigit (by decide)
  rw [isValue, Bool.and_eq_true, Bool.not_eq_true', List.all_eq_true]
  exact ⟨fun c hc => (hchar c hc).1, hasEnd_of_notMem fun hmem => (hchar _ hmem).2 rfl⟩

theorem isValue_intText (n : ℤ) : isValue (intText n) = true := by
  refine isValue_of_chars ?_
  intro c hc
  rcases mem_intText hc with h | h
  · exact Or.inl h
  · exact Or.inr (Or.inr h)

theorem isValue_joinIds (ids : List ℤ) : isValue (joinIds ids) = true := by
  refine isValue_of_chars ?_
  unfold joinIds
  induction ids with
  | nil => exact fun c hc => absurd hc List.not_mem_nil
  | cons n ids ih =>
    have hn : ∀ c ∈ intText n, c = '-' ∨ c = ',' ∨ TextNumber.isDigitOf 10 c = true := by
      intro c hc
      rcases mem_intText hc with h | h
      · exact Or.inl h
      · exact Or.inr (Or.inr h)
    cases ids with
    | nil => simpa [List.intercalate] using hn
    | cons m ids =>
      intro c hc
      rw [List.map_cons, List.map_cons, List.intercalate_cons_cons, List.mem_append,
        List.mem_append] at hc
      rcases hc with (hc | hc) | hc
      · exact hn c hc
      · exact Or.inr (Or.inl (List.mem_singleton.mp hc))
      · exact ih c hc

/-! ### Operations on a role -/

section Role

variable {r : VMGroupRole} {va vattr : AttributeMap} {id : ℤ}

theorem storable_replace {k v : Text} (h : va.Storable) (hk : isName k = true)
    (hv : isValue v = true) : (va.replace k v).Storable := by
  intro k' v' hlookup
  rw [AttributeMap.lookup_replace] at hlookup
  split_ifs at hlookup with heq
  · rw [heq, ← Option.some.inj hlookup]
    exact ⟨hk, hv⟩
  · exact h k' v' hlookup

theorem storable_remove {k : Text} (h : va.Storable) : (va.remove k).Storable := by
  intro k' v' hlookup
  rw [AttributeMap.lookup_remove] at hlookup
  split_ifs at hlookup
  exact h k' v' hlookup

theorem storable_merge (h : va.Storable) (h' : vattr.Storable) : (va.merge vattr true).Storable := by
  intro k v hlookup
  rw [AttributeMap.lookup_merge, Option.or_eq_some_iff] at hlookup
  rcases hlookup with hlookup | ⟨-, hlookup⟩
  · exact h' k v hlookup
  · exact h k v hlookup

theorem readInt_intText {n : ℤ} (h : IsInt n) : AttributeMap.readInt (intText n) = some n := by
  have hne : (intText n).isEmpty = false := by
    rw [List.isEmpty_eq_false_iff]
    exact intText_ne_nil n
  rw [AttributeMap.readInt, hne, if_neg (by decide), getSigned_intText h]
  rfl

theorem id_eq (r : VMGroupRole) : r.id = AttributeMap.readInt (r.va.vectorValue attrId) :=
  AttributeMap.vectorInt_eq

theorem va_new (va : AttributeMap) : (VMGroupRole.new va).va = va := rfl

theorem vms_new (va : AttributeMap) :
    (VMGroupRole.new va).vms = splitUnique (va.vectorValue attrVms) := by
  show (if (va.vectorValue attrVms).isEmpty then [] else _) = _
  split
  · rename_i h
    rw [List.isEmpty_iff.mp h, splitUnique_nil]
  · rfl

/-- The role that the table makes of a new attribute. -/
theorem roleOk_new {n : ℤ} (hn : IsInt n) (hva : va.Storable) (hname : va.vectorValue attrName ≠ []) :
    RoleOk n (.new ((va.replace attrId (intText n)).remove attrVms)) := by
  set va' := (va.replace attrId (intText n)).remove attrVms with hva'
  have hvalue : ∀ k, va'.vectorValue k =
      if k = attrVms then [] else if k = attrId then intText n else va.vectorValue k := by
    intro k
    rw [hva', AttributeMap.vectorValue_remove, AttributeMap.vectorValue_replace]
  have hvms : (VMGroupRole.new va').vms = [] := by
    rw [vms_new, hvalue, if_pos rfl, splitUnique_nil]
  constructor
  · rw [id_eq, va_new, hvalue, if_neg vms_ne_id.symm,
      if_pos rfl]
    exact readInt_intText hn
  · show va'.vectorValue attrName ≠ []
    rw [hvalue, if_neg vms_ne_name.symm, if_neg id_ne_name.symm]
    exact hname
  · exact storable_remove (storable_replace hva isName_attrId (isValue_intText n))
  · show va'.vectorValue attrVms = _
    rw [hvms, hvalue, if_pos rfl]
    rfl
  · rw [hvms]
    exact List.Pairwise.nil
  · rw [hvms]
    exact fun vm hvm => absurd hvm List.not_mem_nil

/-- The values of a role after `set_vms`. -/
theorem vectorValue_setVms (r : VMGroupRole) (k : Text) :
    r.setVms.va.vectorValue k = if k = attrVms then joinIds r.vms else r.va.vectorValue k := by
  unfold VMGroupRole.setVms
  split
  · rename_i h
    rw [show ({ r with va := r.va.remove attrVms } : VMGroupRole).va = r.va.remove attrVms from rfl,
      AttributeMap.vectorValue_remove, List.isEmpty_iff.mp h]
    rfl
  · exact AttributeMap.vectorValue_replace

theorem vms_setVms (r : VMGroupRole) : r.setVms.vms = r.vms := by
  unfold VMGroupRole.setVms
  split <;> rfl

theorem name_setVms (r : VMGroupRole) : r.setVms.name = r.name := by
  rw [VMGroupRole.name, vectorValue_setVms, if_neg vms_ne_name.symm]
  rfl

/-- A role whose virtual machines have changed. -/
theorem RoleOk.setVms {vms : List ℤ} (h : RoleOk id r) (hsorted : vms.Pairwise (· < ·))
    (hints : ∀ vm ∈ vms, IsInt vm) :
    RoleOk id ({ r with vms := vms } : VMGroupRole).setVms := by
  constructor
  · rw [id_eq, vectorValue_setVms, if_neg vms_ne_id.symm, ← h.id, id_eq]
  · rw [name_setVms]
    exact h.name
  · unfold VMGroupRole.setVms
    split
    · exact storable_remove h.storable
    · exact storable_replace h.storable isName_attrVms (isValue_joinIds _)
  · rw [vms_setVms, vectorValue_setVms, if_pos rfl]
  · rw [vms_setVms]
    exact hsorted
  · rw [vms_setVms]
    exact hints

theorem RoleOk.addVm (h : RoleOk id r) {vm : ℤ} (hvm : IsInt vm) : RoleOk id (r.addVm vm) := by
  unfold VMGroupRole.addVm
  split
  · exact h
  · rename_i hnew
    refine h.setVms ?_ ?_
    · have hle : (r.vms.orderedInsert (· ≤ ·) vm).Pairwise (· ≤ ·) :=
        List.Pairwise.orderedInsert vm r.vms (h.sorted.imp le_of_lt)
      have hnodup : (r.vms.orderedInsert (· ≤ ·) vm).Nodup := by
        rw [(List.perm_orderedInsert _ vm r.vms).nodup_iff, List.nodup_cons]
        exact ⟨hnew, h.sorted.imp ne_of_lt⟩
      exact (hle.and hnodup).imp fun h => lt_of_le_of_ne h.1 h.2
    · intro vm' hvm'
      rcases List.mem_orderedInsert _ |>.mp hvm' with rfl | hmem
      · exact hvm
      · exact h.ints vm' hmem

theorem RoleOk.delVm (h : RoleOk id r) (vm : ℤ) : RoleOk id (r.delVm vm) := by
  unfold VMGroupRole.delVm
  split
  · exact h.setVms (h.sorted.sublist List.erase_sublist)
      fun vm' hvm' => h.ints vm' (List.mem_of_mem_erase hvm')
  · exact h

theorem name_addVm (vm : ℤ) : (r.addVm vm).name = r.name := by
  unfold VMGroupRole.addVm
  split
  · rfl
  · exact name_setVms _

theorem name_delVm (vm : ℤ) : (r.delVm vm).name = r.name := by
  unfold VMGroupRole.delVm
  split
  · exact name_setVms _
  · rfl

theorem RoleOk.setName (h : RoleOk id r) {n : Text} (hn : n ≠ []) (hvalue : isValue n = true) :
    RoleOk id (r.setName n) := by
  constructor
  · rw [id_eq, ← h.id, id_eq]
    show AttributeMap.readInt ((r.va.replace attrName n).vectorValue attrId) = _
    rw [AttributeMap.vectorValue_replace, if_neg id_ne_name]
  · show (r.va.replace attrName n).vectorValue attrName ≠ []
    rw [AttributeMap.vectorValue_replace, if_pos rfl]
    exact hn
  · exact storable_replace h.storable isName_attrName hvalue
  · show (r.va.replace attrName n).vectorValue attrVms = _
    rw [AttributeMap.vectorValue_replace, if_neg vms_ne_name]
    exact h.vms
  · exact h.sorted
  · exact h.ints

theorem vectorValue_update (r : VMGroupRole) (k : Text) :
    (r.update vattr).va.vectorValue k =
      (((if k = attrVms then none else vattr.lookup k).or (r.va.lookup k)).getD []) := by
  show (r.va.merge (vattr.remove attrVms) true).vectorValue k = _
  rw [AttributeMap.vectorValue, AttributeMap.lookup_merge, AttributeMap.lookup_remove]

/-- The role keeps its identifier and its name in an update with no other ones. -/
theorem RoleOk.update (h : RoleOk id r) (hva : vattr.Storable)
    (hid : ∀ t, vattr.lookup attrId = some t → AttributeMap.readInt t = some id)
    (hname : ∀ t, vattr.lookup attrName = some t → t = r.name) :
    RoleOk id (r.update vattr) ∧ (r.update vattr).name = r.name := by
  have hsame : (r.update vattr).name = r.name := by
    rw [VMGroupRole.name, vectorValue_update, if_neg vms_ne_name.symm]
    cases hlookup : vattr.lookup attrName with
    | none => rfl
    | some t => exact hname t hlookup
  refine ⟨⟨?_, ?_, ?_, ?_, h.sorted, h.ints⟩, hsame⟩
  · rw [id_eq, vectorValue_update, if_neg vms_ne_id.symm]
    cases hlookup : vattr.lookup attrId with
    | none =>
      rw [Option.none_or, ← h.id, id_eq]
      rfl
    | some t => exact hid t hlookup
  · rw [hsame]
    exact h.name
  · exact storable_merge h.storable (storable_remove hva)
  · rw [vectorValue_update, if_pos rfl, Option.none_or]
    exact h.vms

end Role

/-! ## The invariant of the table -/

/-- What every step keeps. -/
structure Inv (s : VMGroupRoles) : Prop where
  byId : ∀ id p, s.byId.lookup id = some p →
    ∃ role, s.heap.lookup p = some role ∧ RoleOk id role ∧ s.byName.lookup role.name = some p
  byName : ∀ n p, s.byName.lookup n = some p →
    ∃ id role, s.byId.lookup id = some p ∧ s.heap.lookup p = some role ∧ role.name = n
  range : ∀ id ∈ s.byId, 0 ≤ id ∧ id < s.nextRole
  next : 0 ≤ s.nextRole ∧ s.nextRole ≤ maxRoles
  fresh : ∀ p ∈ s.heap, p < s.fresh

theorem Inv.empty : Inv .empty where
  byId id p h := absurd h (by simp [VMGroupRoles.empty])
  byName n p h := absurd h (by simp [VMGroupRoles.empty])
  range id h := absurd h (AList.notMem_empty id)
  next := ⟨le_refl _, by decide⟩
  fresh p h := absurd h (AList.notMem_empty p)

section Table

variable {s : VMGroupRoles} {id : ℤ} {p : ℕ} {role role' : VMGroupRole}

/-- Both maps lead from a role to the same pointer. -/
theorem Inv.at (h : Inv s) (hid : s.byId.lookup id = some p) (hrole : s.heap.lookup p = some role) :
    RoleOk id role ∧ s.byName.lookup role.name = some p := by
  obtain ⟨role', hrole', hok, hname⟩ := h.byId id p hid
  rw [hrole] at hrole'
  obtain rfl := Option.some.inj hrole'
  exact ⟨hok, hname⟩

theorem Inv.id_unique (h : Inv s) {id' : ℤ} (hid : s.byId.lookup id = some p)
    (hid' : s.byId.lookup id' = some p) : id = id' := by
  obtain ⟨role, hrole, hok, -⟩ := h.byId id p hid
  have hok' := (h.at hid' hrole).1
  exact Option.some.inj (hok.id.symm.trans hok'.id)

/-- **A new role.** -/
theorem Inv.insertRole (h : Inv s) (hid : id ∉ s.byId) (hname : role.name ∉ s.byName)
    (hok : RoleOk id role) (next : ℤ) (hnext : s.nextRole ≤ next) (hmax : next ≤ maxRoles)
    (hrange : 0 ≤ id ∧ id < next) :
    Inv { s.insertRole id role.name role with nextRole := next } := by
  have hfresh : ∀ q r, s.heap.lookup q = some r → q ≠ s.fresh := by
    intro q r hq
    exact (h.fresh q (AList.lookup_isSome.mp (by rw [hq]; rfl))).ne
  refine ⟨?_, ?_, ?_, ⟨h.next.1.trans hnext, hmax⟩, ?_⟩
  · intro id' p' hp'
    by_cases heq : id' = id
    · subst heq
      rw [show p' = s.fresh by simpa [VMGroupRoles.insertRole] using hp'.symm]
      exact ⟨role, AList.lookup_insert _, hok, AList.lookup_insert _⟩
    · have hp : s.byId.lookup id' = some p' := (AList.lookup_insert_ne heq).symm.trans hp'
      obtain ⟨r, hr, hrok, hrname⟩ := h.byId id' p' hp
      refine ⟨r, (AList.lookup_insert_ne (hfresh p' r hr)).trans hr, hrok, ?_⟩
      have hne : r.name ≠ role.name := by
        intro hsame
        exact hname (AList.lookup_isSome.mp (by rw [← hsame, hrname]; rfl))
      exact (AList.lookup_insert_ne hne).trans hrname
  · intro n p' hp'
    by_cases heq : n = role.name
    · subst heq
      rw [show p' = s.fresh by simpa [VMGroupRoles.insertRole] using hp'.symm]
      exact ⟨id, role, AList.lookup_insert _, AList.lookup_insert _, rfl⟩
    · have hp : s.byName.lookup n = some p' := (AList.lookup_insert_ne heq).symm.trans hp'
      obtain ⟨id', r, hid', hr, hrname⟩ := h.byName n p' hp
      refine ⟨id', r, ?_, (AList.lookup_insert_ne (hfresh p' r hr)).trans hr, hrname⟩
      have hne : id' ≠ id := by
        rintro rfl
        exact hid (AList.lookup_isSome.mp (by rw [hid']; rfl))
      exact (AList.lookup_insert_ne hne).trans hid'
  · intro id' hid'
    rcases (AList.mem_insert _).mp hid' with rfl | hmem
    · exact hrange
    · exact ⟨(h.range id' hmem).1, (h.range id' hmem).2.trans_le hnext⟩
  · intro q hq
    show q < s.fresh + 1
    rcases (AList.mem_insert _).mp hq with rfl | hmem
    · omega
    · have := h.fresh q hmem
      omega

/-- **A role that keeps its identifier and its name may change.** -/
theorem Inv.changeHeap (h : Inv s) (hid : s.byId.lookup id = some p)
    (hrole : s.heap.lookup p = some role) (hok : RoleOk id role') (hname : role'.name = role.name) :
    Inv { s with heap := s.heap.insert p role' } := by
  refine ⟨?_, ?_, h.range, h.next, ?_⟩
  · intro id' p' hp'
    by_cases heq : p' = p
    · subst heq
      obtain rfl := h.id_unique hid hp'
      exact ⟨role', AList.lookup_insert _, hok, hname ▸ (h.at hid hrole).2⟩
    · obtain ⟨r, hr, hrok, hrname⟩ := h.byId id' p' hp'
      exact ⟨r, (AList.lookup_insert_ne heq).trans hr, hrok, hrname⟩
  · intro n p' hp'
    obtain ⟨id', r, hid', hr, hrname⟩ := h.byName n p' hp'
    by_cases heq : p' = p
    · subst heq
      rw [hrole] at hr
      obtain rfl := Option.some.inj hr
      exact ⟨id', role', hid', AList.lookup_insert _, hname.trans hrname⟩
    · exact ⟨id', r, hid', (AList.lookup_insert_ne heq).trans hr, hrname⟩
  · intro q hq
    rcases (AList.mem_insert _).mp hq with rfl | hmem
    · exact h.fresh q (AList.lookup_isSome.mp (by rw [hrole]; rfl))
    · exact h.fresh q hmem

/-- **A role gets another name.** -/
theorem Inv.rename (h : Inv s) (hid : s.byId.lookup id = some p)
    (hrole : s.heap.lookup p = some role) (hok : RoleOk id role') (hnew : role'.name ∉ s.byName) :
    Inv { s with
      byName := (s.byName.erase role.name).insert role'.name p
      heap := s.heap.insert p role' } := by
  refine ⟨?_, ?_, h.range, h.next, ?_⟩
  · intro id' p' hp'
    by_cases heq : p' = p
    · subst heq
      obtain rfl := h.id_unique hid hp'
      exact ⟨role', AList.lookup_insert _, hok, AList.lookup_insert _⟩
    · obtain ⟨r, hr, hrok, hrname⟩ := h.byId id' p' hp'
      refine ⟨r, (AList.lookup_insert_ne heq).trans hr, hrok, ?_⟩
      have hne : r.name ≠ role'.name := by
        intro hsame
        exact hnew (AList.lookup_isSome.mp (by rw [← hsame, hrname]; rfl))
      have hne' : r.name ≠ role.name := by
        intro hsame
        rw [hsame, (h.at hid hrole).2] at hrname
        exact heq (Option.some.inj hrname).symm
      exact (AList.lookup_insert_ne hne).trans ((AList.lookup_erase_ne hne').trans hrname)
  · intro n p' hp'
    by_cases heq : n = role'.name
    · subst heq
      rw [show p' = p by simpa using hp'.symm]
      exact ⟨id, role', hid, AList.lookup_insert _, rfl⟩
    · have hp : (s.byName.erase role.name).lookup n = some p' :=
        (AList.lookup_insert_ne heq).symm.trans hp'
      have hne : n ≠ role.name := by
        rintro rfl
        rw [AList.lookup_erase] at hp
        exact absurd hp (by simp)
      rw [AList.lookup_erase_ne hne] at hp
      obtain ⟨id', r, hid', hr, hrname⟩ := h.byName n p' hp
      have hpp : p' ≠ p := by
        rintro rfl
        rw [hrole] at hr
        obtain rfl := Option.some.inj hr
        exact hne hrname.symm
      exact ⟨id', r, hid', (AList.lookup_insert_ne hpp).trans hr, hrname⟩
  · intro q hq
    rcases (AList.mem_insert _).mp hq with rfl | hmem
    · exact h.fresh q (AList.lookup_isSome.mp (by rw [hrole]; rfl))
    · exact h.fresh q hmem

/-- **A role is deleted.** -/
theorem Inv.delete (h : Inv s) (hid : s.byId.lookup id = some p)
    (hrole : s.heap.lookup p = some role) :
    Inv { s with
      byName := s.byName.erase role.name
      byId := s.byId.erase id
      heap := s.heap.erase p } := by
  refine ⟨?_, ?_, ?_, h.next, ?_⟩
  · intro id' p' hp'
    have hne : id' ≠ id := by
      rintro rfl
      rw [AList.lookup_erase] at hp'
      exact absurd hp' (by simp)
    rw [AList.lookup_erase_ne hne] at hp'
    obtain ⟨r, hr, hrok, hrname⟩ := h.byId id' p' hp'
    have hpp : p' ≠ p := by
      rintro rfl
      exact hne (h.id_unique hp' hid)
    refine ⟨r, (AList.lookup_erase_ne hpp).trans hr, hrok, ?_⟩
    have hnn : r.name ≠ role.name := by
      intro hsame
      rw [hsame, (h.at hid hrole).2] at hrname
      exact hpp (Option.some.inj hrname).symm
    exact (AList.lookup_erase_ne hnn).trans hrname
  · intro n p' hp'
    have hne : n ≠ role.name := by
      rintro rfl
      rw [AList.lookup_erase] at hp'
      exact absurd hp' (by simp)
    rw [AList.lookup_erase_ne hne] at hp'
    obtain ⟨id', r, hid', hr, hrname⟩ := h.byName n p' hp'
    have hpp : p' ≠ p := by
      rintro rfl
      rw [hrole] at hr
      obtain rfl := Option.some.inj hr
      exact hne hrname.symm
    have hii : id' ≠ id := by
      rintro rfl
      rw [hid] at hid'
      exact hpp (Option.some.inj hid').symm
    exact ⟨id', r, (AList.lookup_erase_ne hii).trans hid', (AList.lookup_erase_ne hpp).trans hr,
      hrname⟩
  · intro id' hid'
    exact h.range id' (AList.mem_erase.mp hid').2
  · intro q hq
    exact h.fresh q (AList.mem_erase.mp hq).2

end Table

end VMGroup
