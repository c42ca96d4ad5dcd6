/-
# Groups along a run

`reload` says that the table of a group in good order is read back from its text as the same table, and
`Inv.exec` that an allowed step keeps the invariant.  `sound_of_reach` is the result: in a run of allowed
steps the table is sound in every state.  A role may get an identifier that is not its own
(`not_sound_update`).
-/
import OpenNebula.VMGroupTable

open XmlText TextList Transition

namespace VMGroup

open VMGroupRoles

/-! ## Reading the table back -/

/-- The role of an identifier. -/
def VMGroupRoles.roleAt (s : VMGroupRoles) (id : ℤ) : Option VMGroupRole :=
  (s.byId.lookup id).bind fun p => s.heap.lookup p

/-- The same values and the same virtual machines. -/
def SameRole (role role' : VMGroupRole) : Prop :=
  (∀ k, role'.va.vectorValue k = role.va.vectorValue k) ∧ role'.vms = role.vms

theorem SameRole.name {role role' : VMGroupRole} (h : SameRole role role') :
    role'.name = role.name := h.1 attrName

section Reload

variable {s t : VMGroupRoles} {id : ℤ} {role : VMGroupRole} {va' : AttributeMap}

theorem roleAt_iff : s.roleAt id = some role ↔
    ∃ p, s.byId.lookup id = some p ∧ s.heap.lookup p = some role := Option.bind_eq_some_iff

theorem Inv.exists_roleAt (h : Inv s) (hid : id ∈ s.byId) :
    ∃ role, s.roleAt id = some role ∧ RoleOk id role := by
  obtain ⟨p, hp⟩ := Option.isSome_iff_exists.mp (AList.lookup_isSome.mpr hid)
  obtain ⟨role, hrole, hok, -⟩ := h.byId id p hp
  exact ⟨role, roleAt_iff.mpr ⟨p, hp, hrole⟩, hok⟩

theorem Inv.roleOk_of_roleAt (h : Inv s) (hrole : s.roleAt id = some role) : RoleOk id role := by
  obtain ⟨p, hp, hheap⟩ := roleAt_iff.mp hrole
  exact (h.at hp hheap).1

/-- No two roles have the same name. -/
theorem Inv.name_unique (h : Inv s) {id' : ℤ} {role' : VMGroupRole} (hrole : s.roleAt id = some role)
    (hrole' : s.roleAt id' = some role') (hname : role.name = role'.name) : id = id' := by
  obtain ⟨p, hp, hheap⟩ := roleAt_iff.mp hrole
  obtain ⟨p', hp', hheap'⟩ := roleAt_iff.mp hrole'
  have hpointer := (h.at hp hheap).2
  rw [hname, (h.at hp' hheap').2] at hpointer
  obtain rfl := Option.some.inj hpointer
  exact h.id_unique hp hp'

/-- The role that is read is in good order. -/
theorem roleOk_read (h : RoleOk id role) (hsame : AttributeMap.SameValues role.va va') :
    RoleOk id (.new va') ∧ SameRole role (.new va') := by
  have hvms : (VMGroupRole.new va').vms = role.vms := by
    rw [vms_new, hsame.value, h.vms, splitUnique_joinIds h.sorted h.ints]
  refine ⟨⟨?_, ?_, ?_, ?_, ?_, ?_⟩, hsame.value, hvms⟩
  · rw [id_eq, ← h.id, id_eq]
    exact congrArg _ (hsame.value attrId)
  · show va'.vectorValue attrName ≠ []
    rw [hsame.value]
    exact h.name
  · exact fun k v hv => h.storable k v (hsame.lookup k v hv)
  · show va'.vectorValue attrVms = _
    rw [hsame.value, h.vms, hvms]
  · rw [hvms]
    exact h.sorted
  · rw [hvms]
    exact h.ints

/-- The table that was read so far has the roles of some identifiers. -/
structure Copied (s t : VMGroupRoles) (ids : List ℤ) : Prop where
  inv : Inv t
  next : t.nextRole ≤ s.nextRole
  mem : ∀ id, id ∈ t.byId ↔ id ∈ ids
  role : ∀ id ∈ ids, ∀ role, s.roleAt id = some role →
    ∃ role', t.roleAt id = some role' ∧ SameRole role role'

/-- **One role is read.** -/
theorem Copied.readRole {ids : List ℤ} (hs : Inv s) (h : Copied s t ids) (hid : id ∉ ids)
    (hrole : s.roleAt id = some role) (hids : ∀ id' ∈ ids, id' ∈ s.byId)
    (hsame : AttributeMap.SameValues role.va va') :
    ∃ t', t.readRole va' = some t' ∧ Copied s t' (id :: ids) := by
  obtain ⟨hok, hsameRole⟩ := roleOk_read (hs.roleOk_of_roleAt hrole) hsame
  have hidS : id ∈ s.byId := by
    obtain ⟨p, hp, -⟩ := roleAt_iff.mp hrole
    exact AList.lookup_isSome.mp (by rw [hp]; rfl)
  have hidT : id ∉ t.byId := fun hmem => hid ((h.mem id).mp hmem)
  have hnameT : (VMGroupRole.new va').name ∉ t.byName := by
    intro hmem
    obtain ⟨p, hp⟩ := Option.isSome_iff_exists.mp (AList.lookup_isSome.mpr hmem)
    obtain ⟨id', role', hid', hheap', hname'⟩ := h.inv.byName _ p hp
    have hmem' : id' ∈ ids := (h.mem id').mp (AList.lookup_isSome.mp (by rw [hid']; rfl))
    obtain ⟨role₀, hrole₀, -⟩ := hs.exists_roleAt (hids id' hmem')
    obtain ⟨role₁, hrole₁, hsame₁⟩ := h.role id' hmem' role₀ hrole₀
    have heq : role₁ = role' := by
      rw [roleAt_iff.mpr ⟨p, hid', hheap'⟩] at hrole₁
      exact (Option.some.inj hrole₁).symm
    have hsameName : role₀.name = role.name := by
      rw [← hsame₁.name, heq, hname', hsameRole.name]
    exact hid (hs.name_unique hrole₀ hrole hsameName ▸ hmem')
  -- the identifier of the next role
  set next := if t.nextRole ≤ id then id + 1 else t.nextRole with hnext
  have hrange := hs.range id hidS
  have hbounds : t.nextRole ≤ next ∧ next ≤ s.nextRole ∧ id < next := by
    have := h.next
    rw [hnext]
    split_ifs <;> omega
  have hread : t.readRole va' = some
      { t.insertRole id (VMGroupRole.new va').name (VMGroupRole.new va') with nextRole := next } := by
    have hint : va'.vectorInt attrId = some id := hok.id
    unfold VMGroupRoles.readRole
    rw [hint]
    dsimp only
    have hfree : ¬(id ∈ t.byId ∨ va'.vectorValue attrName ∈ t.byName) := not_or.mpr ⟨hidT, hnameT⟩
    rw [if_neg (by rw [List.isEmpty_iff]; exact hok.name), if_neg hfree, hnext]
    split_ifs <;> rfl
  refine ⟨_, hread, ?_, hbounds.2.1, ?_, ?_⟩
  · exact h.inv.insertRole hidT hnameT hok next hbounds.1 (hbounds.2.1.trans hs.next.2)
      ⟨hrange.1, hbounds.2.2⟩
  · intro id'
    rw [List.mem_cons, ← h.mem id']
    exact AList.mem_insert _
  · intro id' hid' role₀ hrole₀
    by_cases heq : id' = id
    · subst heq
      rw [hrole] at hrole₀
      obtain rfl := Option.some.inj hrole₀
      exact ⟨.new va', roleAt_iff.mpr ⟨t.fresh, AList.lookup_insert _, AList.lookup_insert _⟩,
        hsameRole⟩
    · obtain ⟨role', hrole', hsame'⟩ :=
        h.role id' ((List.mem_cons.mp hid').resolve_left heq) role₀ hrole₀
      obtain ⟨p, hp, hheap⟩ := roleAt_iff.mp hrole'
      have hne : p ≠ t.fresh :=
        (h.inv.fresh p (AList.lookup_isSome.mp (by rw [hheap]; rfl))).ne
      exact ⟨role', roleAt_iff.mpr ⟨p, (AList.lookup_insert_ne heq).trans hp,
        (AList.lookup_insert_ne hne).trans hheap⟩, hsame'⟩

/-- **All the roles are read.**  The induction is on the roles that are left. -/
theorem Copied.readRoles (hs : Inv s) {ids rest : List ℤ} {roles : List VMGroupRole}
    {vas : List AttributeMap} (h : Copied s t ids) (hids : ∀ id ∈ ids, id ∈ s.byId)
    (hrest : List.Forall₂ (fun id role => s.roleAt id = some role) rest roles)
    (hvas : List.Forall₂ (fun role va' => AttributeMap.SameValues role.va va') roles vas)
    (hnodup : rest.Nodup) (hapart : ∀ id ∈ rest, id ∉ ids) :
    ∃ t', vas.foldlM VMGroupRoles.readRole t = some t' ∧ Inv t' ∧
      (∀ id, id ∈ t'.byId ↔ id ∈ ids ∨ id ∈ rest) ∧
      ∀ id, id ∈ ids ∨ id ∈ rest → ∀ role, s.roleAt id = some role →
        ∃ role', t'.roleAt id = some role' ∧ SameRole role role' := by
  induction hrest generalizing t ids vas with
  | nil =>
    cases hvas
    refine ⟨t, rfl, h.inv, ?_, ?_⟩
    · intro id
      rw [h.mem id]
      simp
    · intro id hid
      exact h.role id (by simpa using hid)
  | @cons id role rest roles hrole hrest ih =>
    cases hvas with
    | @cons _ va' _ vas hva hvas =>
      obtain ⟨hnot, hnodup⟩ := List.nodup_cons.mp hnodup
      obtain ⟨t', hread, hcopied⟩ :=
        h.readRole hs (hapart id List.mem_cons_self) hrole hids hva
      have hidS : id ∈ s.byId := by
        obtain ⟨p, hp, -⟩ := roleAt_iff.mp hrole
        exact AList.lookup_isSome.mp (by rw [hp]; rfl)
      have hids' : ∀ id' ∈ id :: ids, id' ∈ s.byId := by
        intro id' hid'
        rcases List.mem_cons.mp hid' with rfl | hid'
        · exact hidS
        · exact hids id' hid'
      have hapart' : ∀ id' ∈ rest, id' ∉ id :: ids := by
        intro id' hid' hmem
        rcases List.mem_cons.mp hmem with rfl | hmem
        · exact hnot hid'
        · exact hapart id' (List.mem_cons_of_mem _ hid') hmem
      obtain ⟨t'', hfold, hinv, hmem, hroles⟩ := ih hcopied hids' hvas hnodup hapart'
      have hor : ∀ id', id' ∈ id :: ids ∨ id' ∈ rest ↔ id' ∈ ids ∨ id' ∈ id :: rest := by
        intro id'
        rw [List.mem_cons, List.mem_cons]
        tauto
      refine ⟨t'', ?_, hinv, fun id' => (hmem id').trans (hor id'),
        fun id' hid' => hroles id' ((hor id').mpr hid')⟩
      rw [List.foldlM_cons, hread]
      exact hfold

/-- The nodes of the roles are read as their vectors. -/
theorem vectorsOf_read {roles : List VMGroupRole} {nodes : List XmlNode}
    (hne : ∀ role ∈ roles, role.name ≠ [])
    (h : List.Forall₂ Reads (roles.map fun role => role.va.item attrRole) nodes) :
    List.Forall₂ (fun role va' => AttributeMap.SameValues role.va va') roles
      (vectorsOf attrRole (nodes.filterMap xmlAtt)) := by
  rw [List.forall₂_map_left_iff] at h
  induction h with
  | nil => exact List.Forall₂.nil
  | @cons role node roles nodes hnode _ ih =>
    have hkey : ∃ k, k ∈ role.va := by
      refine ⟨attrName, ?_⟩
      by_contra hnot
      have hname := hne role List.mem_cons_self
      rw [VMGroupRole.name, AttributeMap.vectorValue, AList.lookup_eq_none.mpr hnot] at hname
      exact hname rfl
    obtain ⟨va', hatt, hsame⟩ := AttributeMap.xmlAtt_item hnode hkey
    have hcons : vectorsOf attrRole ((node :: nodes).filterMap xmlAtt) =
        va' :: vectorsOf attrRole (nodes.filterMap xmlAtt) := by
      rw [List.filterMap_cons, hatt, vectorsOf, List.filterMap_cons]
      dsimp only
      rw [if_pos rfl]
      rfl
    rw [hcons]
    exact .cons hsame (ih fun role' hrole' => hne role' (List.mem_cons_of_mem _ hrole'))

theorem roleList_forall₂ (hs : Inv s) :
    List.Forall₂ (fun id role => s.roleAt id = some role)
      (s.byId.keys.insertionSort (· ≤ ·)) s.roleList := by
  have hall : ∀ id ∈ s.byId.keys.insertionSort (· ≤ ·), ∃ role, s.roleAt id = some role := by
    intro id hid
    obtain ⟨role, hrole, -⟩ := hs.exists_roleAt (AList.mem_keys.mpr ((List.mem_insertionSort _).mp hid))
    exact ⟨role, hrole⟩
  unfold VMGroupRoles.roleList
  generalize s.byId.keys.insertionSort (· ≤ ·) = ids at hall
  induction ids with
  | nil => exact .nil
  | cons id ids ih =>
    obtain ⟨role, hrole⟩ := hall id List.mem_cons_self
    have hrole' : ((s.byId.lookup id).bind fun p => s.heap.lookup p) = some role := hrole
    rw [List.filterMap_cons, hrole']
    exact .cons hrole (ih fun id' hid' => hall id' (List.mem_cons_of_mem _ hid'))

/-- Two tables with the same roles, under the same identifiers and names. -/
structure SameRoles (s s' : VMGroupRoles) : Prop where
  ids : ∀ id, id ∈ s'.byId ↔ id ∈ s.byId
  names : ∀ n, n ∈ s'.byName ↔ n ∈ s.byName
  role : ∀ id role, s.roleAt id = some role → ∃ role', s'.roleAt id = some role' ∧
    SameRole role role' ∧ s'.byName.lookup role.name = s'.byId.lookup id

theorem sameRoles_of_copied {s' : VMGroupRoles} (hs : Inv s) (hs' : Inv s')
    (hids : ∀ id, id ∈ s'.byId ↔ id ∈ s.byId)
    (hroles : ∀ id role, s.roleAt id = some role →
      ∃ role', s'.roleAt id = some role' ∧ SameRole role role') : SameRoles s s' := by
  have hpointer : ∀ id role role', s'.roleAt id = some role' → SameRole role role' →
      s'.byName.lookup role.name = s'.byId.lookup id := by
    intro id role role' hrole' hsame
    obtain ⟨p, hp, hheap⟩ := roleAt_iff.mp hrole'
    rw [hp, ← hsame.name]
    exact (hs'.at hp hheap).2
  refine ⟨hids, ?_, ?_⟩
  · intro n
    rw [← AList.lookup_isSome, ← AList.lookup_isSome, Option.isSome_iff_exists,
      Option.isSome_iff_exists]
    constructor
    · rintro ⟨p, hp⟩
      obtain ⟨id, role', hid, hheap, rfl⟩ := hs'.byName n p hp
      obtain ⟨role, hrole, -⟩ :=
        hs.exists_roleAt ((hids id).mp (AList.lookup_isSome.mp (by rw [hid]; rfl)))
      obtain ⟨role'', hrole'', hsame⟩ := hroles id role hrole
      have heq : role' = role'' := by
        rw [roleAt_iff.mpr ⟨p, hid, hheap⟩] at hrole''
        exact Option.some.inj hrole''
      obtain ⟨q, hq, hheapq⟩ := roleAt_iff.mp hrole
      exact ⟨q, by rw [heq, hsame.name]; exact (hs.at hq hheapq).2⟩
    · rintro ⟨p, hp⟩
      obtain ⟨id, role, hid, hheap, rfl⟩ := hs.byName n p hp
      obtain ⟨role', hrole', hsame⟩ := hroles id role (roleAt_iff.mpr ⟨p, hid, hheap⟩)
      obtain ⟨q, hq, -⟩ := roleAt_iff.mp hrole'
      exact ⟨q, (hpointer id role role' hrole' hsame).trans hq⟩
  · intro id role hrole
    obtain ⟨role', hrole', hsame⟩ := hroles id role hrole
    exact ⟨role', hrole', hsame, hpointer id role role' hrole' hsame⟩

theorem isName_attrRole : isName attrRole = true := by decide

theorem isName_rolesRoot : isName rolesRoot = true := by decide

/-- **The text of a table is read back as the same table.** -/
theorem reload {parse : Text → Option XmlNode} (hxml : StandardXml parse) (hs : Inv s) :
    ∃ node s', parse s.toXml = some node ∧ fromXmlNode node = some s' ∧ Inv s' ∧ SameRoles s s' := by
  have hlist := roleList_forall₂ hs
  have hok : ∀ role ∈ s.roleList, ∃ id, RoleOk id role := by
    intro role hrole
    obtain ⟨id, -, hrole'⟩ := List.mem_filterMap.mp hrole
    exact ⟨id, hs.roleOk_of_roleAt hrole'⟩
  have hstorable : ∀ i ∈ s.roleList.map fun role => role.va.item attrRole, Storable i := by
    intro i hi
    obtain ⟨role, hrole, rfl⟩ := List.mem_map.mp hi
    obtain ⟨id, hroleOk⟩ := hok role hrole
    exact AttributeMap.storable_item isName_attrRole hroleOk.storable
  obtain ⟨nodes, hparse, hreads⟩ := hxml _ _ isName_rolesRoot hstorable
  have hvas := vectorsOf_read (fun role hrole => (hok role hrole).elim fun id h => h.name) hreads
  have hstart : Copied s empty [] :=
    ⟨Inv.empty, hs.next.1, fun id => iff_of_false (AList.notMem_empty id) List.not_mem_nil,
      fun id hid => absurd hid List.not_mem_nil⟩
  have hnodup : (s.byId.keys.insertionSort (· ≤ ·)).Nodup :=
    (List.perm_insertionSort _ _).nodup_iff.mpr s.byId.keys_nodup
  obtain ⟨s', hfold, hinv, hmem, hroles⟩ := hstart.readRoles hs
    (fun id hid => absurd hid List.not_mem_nil) hlist hvas hnodup (fun id _ => List.not_mem_nil)
  have hids : ∀ id, id ∈ s'.byId ↔ id ∈ s.byId := by
    intro id
    rw [hmem id, List.mem_insertionSort, ← AList.mem_keys]
    simp
  refine ⟨_, s', hparse, hfold, hinv, sameRoles_of_copied hs hinv hids ?_⟩
  intro id role hrole
  refine hroles id (Or.inr ?_) role hrole
  obtain ⟨p, hp, -⟩ := roleAt_iff.mp hrole
  rw [List.mem_insertionSort, ← AList.mem_keys]
  exact AList.lookup_isSome.mp (by rw [hp]; rfl)

end Reload

/-! ## Steps -/

/-- The attributes of a vector can be stored; a text alone is not a role. -/
def StorableAttribute : Attribute → Prop
  | .single _ _ => True
  | .vector _ va => va.Storable

/-- The update leaves the identifier of a role as it is and does not take its name away. -/
def KeepsIdentity (roleId : ℤ) (vrole : AttributeMap) : Prop :=
  (∀ t, vrole.lookup attrId = some t → AttributeMap.readInt t = some roleId) ∧
    vrole.lookup attrName ≠ some []

/-- **The steps that keep the table sound.**  A creation has at most `MAX_ROLES` roles; a role that is
added gets an identifier below `MAX_ROLES`; an update of a role does not change its `ID` and does not
empty its `NAME`; the attributes can be stored as XML. -/
def Allowed (g : Group) : Action → Prop
  | .create _ roles => roles.length ≤ maxRoles ∧ ∀ att ∈ roles, StorableAttribute att
  | .addRole vrole => vrole.Storable ∧
      (vrole.vectorValue attrName ≠ [] → vrole.vectorValue attrName ∉ g.roles.byName →
        g.roles.nextRole < maxRoles)
  | .updateRole _ roleId vrole => vrole.Storable ∧
      ∀ role, g.roles.roleAt roleId = some role → role.vms = [] →
        (vrole.vectorValue attrName ∈ g.roles.byName → vrole.vectorValue attrName = role.name) →
        KeepsIdentity roleId vrole
  | _ => True

section Steps

variable {s : VMGroupRoles} {vrole : AttributeMap} {roleId : ℤ}

theorem isInt_of_range {n : ℤ} (h : 0 ≤ n ∧ n < maxRoles) : IsInt n := by
  have h32 : (maxRoles : ℤ) = 32 := rfl
  constructor <;> omega

theorem Inv.addRole (h : Inv s) (hva : vrole.Storable)
    (hroom : vrole.vectorValue attrName ≠ [] → vrole.vectorValue attrName ∉ s.byName →
      s.nextRole < maxRoles) : Inv (s.addRole vrole).1 := by
  unfold VMGroupRoles.addRole
  dsimp only
  split
  · exact h
  · rename_i hname
    rw [List.isEmpty_iff] at hname
    split
    · exact h
    · rename_i hfree
      rw [not_or] at hfree
      have hlt := hroom hname hfree.2
      have hok := roleOk_new (isInt_of_range ⟨h.next.1, hlt⟩) hva hname
      have hsame : (VMGroupRole.new
          ((vrole.replace attrId (intText s.nextRole)).remove attrVms)).name =
          vrole.vectorValue attrName := by
        rw [VMGroupRole.name, va_new, AttributeMap.vectorValue_remove, if_neg vms_ne_name.symm,
          AttributeMap.vectorValue_replace, if_neg id_ne_name.symm]
      have hinv := h.insertRole hfree.1 (hsame ▸ hfree.2) hok (s.nextRole + 1) (by omega) (by omega)
        ⟨h.next.1, by omega⟩
      rw [hsame] at hinv
      exact hinv

theorem nextRole_addRole (s : VMGroupRoles) (vrole : AttributeMap) :
    (s.addRole vrole).1.nextRole ≤ s.nextRole + 1 := by
  unfold VMGroupRoles.addRole
  dsimp only
  have hle : s.nextRole ≤ s.nextRole + 1 := by omega
  split_ifs
  · exact hle
  · exact hle
  · exact le_refl _

/-- **The loop of the creation.**  The induction is on the attributes that are left: there is room for
all of them. -/
theorem Inv.insertLoop {atts : List Attribute} (hatts : ∀ att ∈ atts, StorableAttribute att)
    {r : VMGroupRoles × Option Text} (h : Inv r.1) (hroom : r.1.nextRole + atts.length ≤ maxRoles) :
    Inv (VMGroupRoles.insertLoop r atts).1 := by
  induction atts generalizing r with
  | nil =>
    rw [VMGroupRoles.insertLoop]
    exact h
  | cons att atts ih =>
    have hrest : ∀ att ∈ atts, StorableAttribute att :=
      fun a ha => hatts a (List.mem_cons_of_mem _ ha)
    have hlen : ((att :: atts).length : ℤ) = atts.length + 1 := by
      rw [List.length_cons]
      push_cast
      ring
    obtain ⟨s, error⟩ := r
    match error, att with
    | some error, _ => exact ih hrest h (by omega)
    | none, .single _ _ => exact ih hrest h (by omega)
    | none, .vector _ va =>
      have hnext := nextRole_addRole s va
      have hleft : s.nextRole + ((atts.length : ℤ) + 1) ≤ maxRoles := hlen ▸ hroom
      refine ih hrest (h.addRole (hatts _ List.mem_cons_self) fun _ _ => ?_) (by omega)
      show s.nextRole < maxRoles
      omega

/-- A pointer of the map by identifiers leads to a role. -/
theorem Inv.derefId (h : Inv s) (id : ℤ) :
    s.deref (s.byId.lookup id) = some none ∨
      ∃ p role, s.byId.lookup id = some p ∧ s.heap.lookup p = some role ∧
        s.deref (s.byId.lookup id) = some (some (p, role)) := by
  cases hid : s.byId.lookup id with
  | none => exact Or.inl rfl
  | some p =>
    obtain ⟨role, hrole, -, -⟩ := h.byId id p hid
    exact Or.inr ⟨p, role, rfl, hrole, by rw [VMGroupRoles.deref, hrole]; rfl⟩

/-- A pointer of the map by names leads to a role. -/
theorem Inv.derefName (h : Inv s) (n : Text) :
    s.deref (s.byName.lookup n) = some none ∨
      ∃ id p role, s.byId.lookup id = some p ∧ s.heap.lookup p = some role ∧
        s.deref (s.byName.lookup n) = some (some (p, role)) := by
  cases hname : s.byName.lookup n with
  | none => exact Or.inl rfl
  | some p =>
    obtain ⟨id, role, hid, hrole, -⟩ := h.byName n p hname
    exact Or.inr ⟨id, p, role, hid, hrole, by rw [VMGroupRoles.deref, hrole]; rfl⟩

theorem Inv.delRole (h : Inv s) (roleId : ℤ) : ∃ r, s.delRole roleId = some r ∧ Inv r.1 := by
  unfold VMGroupRoles.delRole
  rcases h.derefId roleId with hnone | ⟨p, role, hid, hrole, hsome⟩
  · rw [hnone]
    exact ⟨_, rfl, h⟩
  · rw [hsome, Option.map_some]
    refine ⟨_, rfl, ?_⟩
    dsimp only
    split
    · exact h
    · exact h.delete hid hrole

theorem Inv.changeRole (h : Inv s) {f : VMGroupRole → VMGroupRole}
    (hf : ∀ id role, RoleOk id role → RoleOk id (f role) ∧ (f role).name = role.name) (n : Text) :
    ∃ r, s.changeRole f n = some r ∧ Inv r.1 := by
  unfold VMGroupRoles.changeRole
  rcases h.derefName n with hnone | ⟨id, p, role, hid, hrole, hsome⟩
  · rw [hnone]
    exact ⟨_, rfl, h⟩
  · rw [hsome, Option.map_some]
    obtain ⟨hok, hname⟩ := hf id role (h.at hid hrole).1
    exact ⟨_, rfl, h.changeHeap hid hrole hok hname⟩

theorem isValue_vectorValue (hva : vrole.Storable) {k : Text} (hk : vrole.vectorValue k ≠ []) :
    isValue (vrole.vectorValue k) = true := by
  unfold AttributeMap.vectorValue at hk ⊢
  cases hlookup : vrole.lookup k with
  | none =>
    rw [hlookup] at hk
    exact absurd rfl hk
  | some v => exact (hva k v hlookup).2

/-- **An update of a role**: the role gets its new name first, and then all the attributes. -/
theorem Inv.updateRole (h : Inv s) (oid : ℤ) (hva : vrole.Storable)
    (hkeeps : ∀ role, s.roleAt roleId = some role → role.vms = [] →
      (vrole.vectorValue attrName ∈ s.byName → vrole.vectorValue attrName = role.name) →
      KeepsIdentity roleId vrole) :
    ∃ r, s.updateRole oid roleId vrole = some r ∧ Inv r.1 := by
  unfold VMGroupRoles.updateRole
  rcases h.derefId roleId with hnone | ⟨p, role, hid, hrole, hsome⟩
  · rw [hnone]
    exact ⟨_, rfl, h⟩
  rw [hsome, Option.map_some]
  refine ⟨_, rfl, ?_⟩
  dsimp only
  split
  · exact h
  rename_i hvms
  have hvms : role.vms = [] := List.eq_nil_of_length_eq_zero (by omega)
  have hkeeps := hkeeps role (roleAt_iff.mpr ⟨p, hid, hrole⟩) hvms
  obtain ⟨hok, hname⟩ := h.at hid hrole
  have hvalue : ∀ t, vrole.lookup attrName = some t → t = vrole.vectorValue attrName := by
    intro t ht
    rw [AttributeMap.vectorValue, ht]
    rfl
  by_cases hrename : (!(vrole.vectorValue attrName).isEmpty &&
      vrole.vectorValue attrName != role.name) = true
  · rw [if_pos hrename]
    have hne : vrole.vectorValue attrName ≠ [] ∧ vrole.vectorValue attrName ≠ role.name := by
      simpa using hrename
    unfold VMGroupRoles.renameRole
    split
    · rename_i hnone
      exact h
    · rename_i s' role' hrenamed
      split at hrenamed
      · exact absurd hrenamed (by simp)
      rename_i hnew
      obtain ⟨hid', -⟩ := hkeeps fun hmem => absurd hmem hnew
      simp only [Option.some.injEq, Prod.mk.injEq] at hrenamed
      obtain ⟨rfl, rfl⟩ := hrenamed
      have hok' := hok.setName hne.1 (isValue_vectorValue hva hne.1)
      have hname' : (role.setName (vrole.vectorValue attrName)).name = vrole.vectorValue attrName := by
        show (role.va.replace attrName _).vectorValue attrName = _
        rw [AttributeMap.vectorValue_replace, if_pos rfl]
      have hinv := h.rename hid hrole hok' (hname' ▸ hnew)
      rw [hname'] at hinv
      obtain ⟨hokU, hnameU⟩ := hok'.update hva hid'
        (fun t ht => (hvalue t ht).trans hname'.symm)
      exact hinv.changeHeap hid (AList.lookup_insert _) hokU hnameU
  · rw [if_neg hrename]
    have hor : vrole.vectorValue attrName = [] ∨ vrole.vectorValue attrName = role.name := by
      by_contra hnot
      rw [not_or] at hnot
      exact hrename (by simpa using hnot)
    have hpre : vrole.vectorValue attrName ∈ s.byName → vrole.vectorValue attrName = role.name := by
      intro hmem
      rcases hor with hempty | hsame
      · obtain ⟨q, hq⟩ := Option.isSome_iff_exists.mp (AList.lookup_isSome.mpr hmem)
        obtain ⟨id', r, hid', hr, hrname⟩ := h.byName _ q hq
        exact absurd (hrname.trans hempty) (h.at hid' hr).1.name
      · exact hsame
    obtain ⟨hid', hnamed⟩ := hkeeps hpre
    obtain ⟨hokU, hnameU⟩ := hok.update hva hid' (by
      intro t ht
      rcases hor with hempty | hsame
      · rw [ht, hvalue t ht, hempty] at hnamed
        exact absurd rfl hnamed
      · exact (hvalue t ht).trans hsame)
    exact h.changeHeap hid hrole hokU hnameU

end Steps

/-! ## Runs -/

/-- What the table of a group is meant to be. -/
structure Sound (parse : Text → Option XmlNode) (s : VMGroupRoles) : Prop where
  byId : ∀ id p, s.byId.lookup id = some p → ∃ role, s.heap.lookup p = some role ∧
    role.id = some id ∧ s.byName.lookup role.name = some p
  byName : ∀ n p, s.byName.lookup n = some p → ∃ role id, s.heap.lookup p = some role ∧
    role.name = n ∧ role.id = some id ∧ s.byId.lookup id = some p
  unique : ∀ id id' role role', s.roleAt id = some role → s.roleAt id' = some role' →
    role.id = role'.id ∨ role.name = role'.name → id = id'
  few : s.byId.keys.length ≤ maxRoles
  small : ∀ id ∈ s.byId, 0 ≤ id ∧ id < maxRoles
  bits : ∀ id ∈ s.byId, ∀ rolesId, id ∈ rolesId → ruleBit rolesId id.toNat = true
  reload : ∃ node s', parse s.toXml = some node ∧ fromXmlNode node = some s' ∧ SameRoles s s'

theorem Inv.small {s : VMGroupRoles} (h : Inv s) {id : ℤ} (hid : id ∈ s.byId) :
    0 ≤ id ∧ id < maxRoles :=
  ⟨(h.range id hid).1, (h.range id hid).2.trans_le h.next.2⟩

theorem Inv.few {s : VMGroupRoles} (h : Inv s) : s.byId.keys.length ≤ maxRoles := by
  have hsub : s.byId.keys.toFinset ⊆ Finset.Ico (0 : ℤ) maxRoles := by
    intro id hid
    rw [List.mem_toFinset, ← AList.mem_keys] at hid
    exact Finset.mem_Ico.mpr (h.small hid)
  have hcard := Finset.card_le_card hsub
  rw [List.toFinset_card_of_nodup s.byId.keys_nodup, Int.card_Ico] at hcard
  simpa using hcard

theorem Inv.sound {parse : Text → Option XmlNode} (hxml : StandardXml parse) {s : VMGroupRoles}
    (h : Inv s) : Sound parse s where
  byId id p hid := by
    obtain ⟨role, hrole, hok, hname⟩ := h.byId id p hid
    exact ⟨role, hrole, hok.id, hname⟩
  byName n p hn := by
    obtain ⟨id, role, hid, hrole, hname⟩ := h.byName n p hn
    exact ⟨role, id, hrole, hname, (h.at hid hrole).1.id, hid⟩
  unique id id' role role' hrole hrole' hor := by
    rcases hor with hid | hname
    · rw [(h.roleOk_of_roleAt hrole).id, (h.roleOk_of_roleAt hrole').id] at hid
      exact Option.some.inj hid
    · exact h.name_unique hrole hrole' hname
  few := h.few
  small id hid := h.small hid
  bits id hid rolesId hmem := by
    have hsmall := h.small hid
    have hcast : ((id.toNat : ℕ) : ℤ) = id := Int.toNat_of_nonneg hsmall.1
    rw [ruleBit, Bool.and_eq_true, decide_eq_true_eq, decide_eq_true_eq, hcast]
    exact ⟨by omega, hmem⟩
  reload := by
    obtain ⟨node, s', hparse, hread, -, hsame⟩ := reload hxml h
    exact ⟨node, s', hparse, hread, hsame⟩

/-- The roles and the stored roles are in good order. -/
def Good (g : Group) : Prop :=
  Inv g.roles ∧ ∀ t, g.body = some t → ∃ s, Inv s ∧ t = s.toXml

theorem inv_insert {roles : List Attribute} (hlen : roles.length ≤ maxRoles)
    (hatts : ∀ att ∈ roles, StorableAttribute att) (name : Text) :
    ∃ r, VMGroupRoles.insert name roles = some r ∧ Inv r.1 := by
  unfold VMGroupRoles.insert
  split
  · exact ⟨_, rfl, Inv.empty⟩
  · rw [if_neg (by omega)]
    refine ⟨_, rfl, Inv.insertLoop hatts Inv.empty ?_⟩
    show (0 : ℤ) + roles.length ≤ maxRoles
    omega

/-- **An allowed step is defined and keeps the table in good order.** -/
theorem Good.exec {parse : Text → Option XmlNode} (hxml : StandardXml parse) {g : Group} (h : Good g)
    {a : Action} (ha : Allowed g a) : ∃ g', exec parse g a = some g' ∧ Good g' := by
  obtain ⟨hinv, hbody⟩ := h
  have hgood : ∀ s, Inv s → Good { g with roles := s } := fun s hs => ⟨hs, hbody⟩
  cases a with
  | create name roles =>
    obtain ⟨r, hr, hinv'⟩ := inv_insert ha.1 ha.2 name
    refine ⟨⟨r.1, none⟩, ?_, hinv', fun t ht => absurd ht (by simp)⟩
    rw [VMGroup.exec, hr, Option.map_some]
  | addRole vrole => exact ⟨_, rfl, hgood _ (hinv.addRole ha.1 ha.2)⟩
  | delRole roleId =>
    obtain ⟨r, hr, hinv'⟩ := hinv.delRole roleId
    refine ⟨_, ?_, hgood _ hinv'⟩
    rw [VMGroup.exec, hr, Option.map_some]
  | updateRole oid roleId vrole =>
    obtain ⟨r, hr, hinv'⟩ := hinv.updateRole oid ha.1 ha.2
    refine ⟨_, ?_, hgood _ hinv'⟩
    rw [VMGroup.exec, hr, Option.map_some]
  | addVm roleName vm =>
    obtain ⟨r, hr, hinv'⟩ := hinv.changeRole
      (fun id role hok => ⟨hok.addVm vm.2, name_addVm vm.1⟩) roleName
    refine ⟨_, ?_, hgood _ hinv'⟩
    rw [VMGroup.exec, VMGroupRoles.addVm, hr, Option.map_some]
  | delVm roleName vm =>
    obtain ⟨r, hr, hinv'⟩ := hinv.changeRole
      (fun id role hok => ⟨hok.delVm vm.1, name_delVm vm.1⟩) roleName
    refine ⟨_, ?_, hgood _ hinv'⟩
    rw [VMGroup.exec, VMGroupRoles.delVm, hr, Option.map_some]
  | store =>
    refine ⟨_, rfl, hinv, ?_⟩
    intro t ht
    exact ⟨g.roles, hinv, (Option.some.inj ht).symm⟩
  | reload =>
    cases hb : g.body with
    | none => exact ⟨g, by rw [VMGroup.exec, hb]; rfl, hinv, hbody⟩
    | some t =>
      obtain ⟨s, hs, rfl⟩ := hbody t hb
      obtain ⟨node, s', hparse, hread, hinv', -⟩ := VMGroup.reload hxml hs
      refine ⟨_, ?_, hgood _ hinv'⟩
      rw [VMGroup.exec, hb, Option.bind_some, hparse, Option.bind_some, hread]

theorem good_of_reach {parse : Text → Option XmlNode} (hxml : StandardXml parse) {g : Group}
    (h : Reach (step parse) (fun g e => Allowed g e.1) Group.none g) : Good g := by
  refine h.inv ⟨Inv.empty, fun t ht => absurd ht (by simp [Group.none])⟩ ?_
  intro g e g' hg hallowed hstep
  obtain ⟨g'', hexec, hgood⟩ := hg.exec hxml hallowed
  rw [step, hexec] at hstep
  exact Option.some.inj hstep ▸ hgood

/-- **In a run of allowed steps the table of roles is sound in every state.** -/
theorem sound_of_reach {parse : Text → Option XmlNode} (hxml : StandardXml parse) {g : Group}
    (h : Reach (step parse) (fun g e => Allowed g e.1) Group.none g) : Sound parse g.roles :=
  (good_of_reach hxml h).1.sound hxml

/-! ### Two runs -/

section Decidable

instance (va : AttributeMap) : Decidable va.Storable :=
  decidable_of_iff (∀ e ∈ va.entries, isName e.1 = true ∧ isValue e.2 = true)
    ⟨fun h k v hv => h ⟨k, v⟩ (AList.mem_lookup_iff.mp hv),
      fun h e he => h e.1 e.2 (AList.mem_lookup_iff.mpr he)⟩

instance (att : Attribute) : Decidable (StorableAttribute att) :=
  match att with
  | .single _ _ => inferInstanceAs (Decidable True)
  | .vector _ va => inferInstanceAs (Decidable va.Storable)

instance (roleId : ℤ) (vrole : AttributeMap) : Decidable (KeepsIdentity roleId vrole) :=
  inferInstanceAs (Decidable
    ((∀ t ∈ vrole.lookup attrId, AttributeMap.readInt t = some roleId) ∧ _ ≠ _))

instance (g : Group) (a : Action) : Decidable (Allowed g a) :=
  match a with
  | .create _ roles => inferInstanceAs (Decidable (_ ∧ ∀ att ∈ roles, StorableAttribute att))
  | .addRole _ => inferInstanceAs (Decidable (_ ∧ (_ → _ → _)))
  | .updateRole _ roleId _ => inferInstanceAs (Decidable
      (_ ∧ ∀ role ∈ g.roles.roleAt roleId, role.vms = [] → (_ → _) → KeepsIdentity roleId _))
  | .delRole _ => inferInstanceAs (Decidable True)
  | .addVm _ _ => inferInstanceAs (Decidable True)
  | .delVm _ _ => inferInstanceAs (Decidable True)
  | .store => inferInstanceAs (Decidable True)
  | .reload => inferInstanceAs (Decidable True)

end Decidable

/-- A role with a name. -/
def webRole : AttributeMap := AttributeMap.replace ∅ attrName "web".toList

/-- An update with a name and a policy. -/
def dbUpdate : AttributeMap :=
  AttributeMap.replace (AttributeMap.replace ∅ attrName "db".toList) "POLICY".toList
    "AFFINED".toList

/-- A group with one role, which gets another name and a virtual machine, is stored and read back. -/
def dbRun : List (Action × Group) :=
  [.create "g".toList [.vector attrRole webRole], .updateRole 7 0 dbUpdate,
    .addVm "db".toList ⟨3, by decide⟩, .store, .reload].map fun a => (a, Group.none)

/-- The end of `dbRun`, when all its steps are allowed. -/
def dbGroup : Option Group :=
  runChecked (step plainParse) (fun g e => Allowed g e.1) Group.none dbRun

theorem sound_dbGroup : ∃ g, dbGroup = some g ∧ Sound plainParse g.roles := by
  obtain ⟨g, hg⟩ := Option.isSome_iff_exists.mp (show dbGroup.isSome = true by decide)
  exact ⟨g, hg, sound_of_reach standardXml_plainParse (reach_of_runChecked dbRun hg)⟩

/-- An update with an identifier. -/
def fiveUpdate : AttributeMap := AttributeMap.replace ∅ attrId "5".toList

/-- A group with one role, whose identifier is changed. -/
def fiveRun : List (Action × Group) :=
  [.create "g".toList [.vector attrRole webRole], .updateRole 7 0 fiveUpdate].map
    fun a => (a, Group.none)

/-- The `ID` of the role `0` at the end of `fiveRun`. -/
def fiveId : Option ℤ :=
  (runEvents (step plainParse) Group.none fiveRun).bind fun g =>
    (g.roles.roleAt 0).bind VMGroupRole.id

/-- **An update may give a role another identifier**: the role `0` has the `ID` `5`. -/
theorem not_sound_update : ∃ g, Run (step plainParse) Group.none g ∧ ¬Sound plainParse g.roles := by
  have hfive : fiveId = some 5 := by decide
  obtain ⟨g, hrun, hid⟩ := Option.bind_eq_some_iff.mp hfive
  refine ⟨g, reach_of_runEvents fiveRun (fun _ _ => trivial) hrun, ?_⟩
  intro h
  obtain ⟨role, hrole, hrid⟩ := Option.bind_eq_some_iff.mp hid
  obtain ⟨p, hp, hheap⟩ := roleAt_iff.mp hrole
  obtain ⟨role', hheap', hrid', -⟩ := h.byId 0 p hp
  rw [hheap] at hheap'
  rw [← Option.some.inj hheap', hrid] at hrid'
  exact absurd hrid' (by decide)

end VMGroup
