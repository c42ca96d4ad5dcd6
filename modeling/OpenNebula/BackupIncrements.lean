/-
# Increments of a backup (`src/image/BackupIncrements.cc`, `src/common/ExtendedAttribute.cc`)

A backup image has a chain of increments: a full backup and what was added to it, each increment with the
identifier of the one before.  The attributes of the increments are in a template and in a map by
identifier.  `add_increment` puts one at the end of the chain.  When older increments were merged, the driver
reports a list of identifiers and sources: `update_increments` gives the increments their new sources, makes
the first of them the full backup and drops what is older.

The list is carried out while it is read, so a list with a fault leaves a chain that was half updated, with
two beginnings (`not_chained`).  In a run where a fault is never behind an entry without one the chain is
always whole, and an update that fails leaves it as it was (`chained_of_reach`).

Conventions of the embedding: the attributes are at addresses that the template and the map share, and the
time of an increment is given with it.  An identifier does not overflow.
-/
import OpenNebula.Attribute
import OpenNebula.OrderedMap
import OpenNebula.TextList
import OpenNebula.Transition

open TextNumber Transition

/-- `Increment::Type`. -/
inductive IncrementType where
  | FULL | INCREMENT
  deriving DecidableEq, Repr

/-- The attributes of an increment. -/
structure Increment where
  id : ℤ
  type : IncrementType
  date : ℤ
  source : Text
  size : Text
  parentId : ℤ
  deriving DecidableEq, Repr

/-- `BackupIncrements`: the attributes at their addresses, the addresses in the template, and the map. -/
structure BackupIncrements where
  attributes : ℕ → Increment
  next : ℕ
  template : List ℕ
  increments : OrderedMap ℤ ℕ

namespace BackupIncrements

/-! ## Operations -/

/-- An attribute is changed. -/
def modify (s : BackupIncrements) (addr : ℕ) (f : Increment → Increment) : BackupIncrements :=
  { s with attributes := Function.update s.attributes addr (f (s.attributes addr)) }

/-- A new attribute goes into the map, unless the identifier is there, and into the template. -/
def newIncrement (s : BackupIncrements) (source : Text) (sz : ℤ) (type : IncrementType) (date : ℤ)
    (parent : ℤ) : BackupIncrements :=
  let iid := parent + 1
  { attributes := Function.update s.attributes s.next ⟨iid, type, date, source, intText sz, parent⟩
    next := s.next + 1
    template := s.template ++ [s.next]
    increments := s.increments.alter iid fun o => o.getD s.next }

/-- `BackupIncrements::add_increment`, with `IncrementSet::new_increment`. -/
def addIncrement (s : BackupIncrements) (source : Text) (sz : ℤ) (type : IncrementType) (date : ℤ) :
    Bool × BackupIncrements :=
  match s.increments.getLast? with
  | none => if type ≠ .FULL then (false, s) else (true, s.newIncrement source sz type date (-1))
  | some li => (true, s.newIncrement source sz type date li.1)

/-- `IncrementSet::get_increment`. -/
def getIncrement (s : BackupIncrements) (id : ℤ) : Option ℕ := s.increments.find id

/-- The increment is removed from the map and from the template. -/
def deleteIncrement (s : BackupIncrements) (id : ℤ) (addr : ℕ) : BackupIncrements :=
  { s with
    template := s.template.erase addr
    increments := s.increments.filter fun e => e.1 ≠ id }

/-- The identifier and the source in an entry of the list. -/
def readEntry (entry : Text) : Option (ℤ × Text) :=
  match (entry.splitOn ':').filter fun part => !part.isEmpty with
  | [id, source] => (AttributeMap.readInt id).map fun id => (id, source)
  | _ => none

/-- The increment that an entry of the list is about, and its new source. -/
def entryTarget (s : BackupIncrements) (entry : Text) : Option (ℤ × ℕ × Text) :=
  match readEntry entry with
  | none => none
  | some (id, source) => (s.getIncrement id).map fun addr => (id, addr, source)

/-- The loop over the list; `first` is the identifier of the first entry, or -1.  The result has none when
an entry cannot be read or names no increment. -/
def applyEntries (sz : Text) : List Text → ℤ → BackupIncrements → Option ℤ × BackupIncrements
  | [], first, s => (some first, s)
  | entry :: entries, first, s =>
    match s.entryTarget entry with
    | none => (none, s)
    | some (id, addr, source) =>
      let s := if first = -1 then
          s.modify addr fun inc => { inc with type := .FULL, parentId := -1, size := sz }
        else s
      applyEntries sz entries (if first = -1 then id else first)
        (s.modify addr fun inc => { inc with source := source })

/-- The loop that deletes the increments before one, from the last to the first. -/
def dropOlder : ℕ → BackupIncrements → BackupIncrements
  | 0, s => s
  | first + 1, s =>
    match s.getIncrement first with
    | none => s
    | some addr => dropOlder first (s.deleteIncrement first addr)

/-- The entries of the list. -/
def entries (incs : Text) : List Text := (incs.splitOn ',').filter fun part => !part.isEmpty

/-- `BackupIncrements::update_increments`; the flag says whether it returns 0. -/
def updateIncrements (s : BackupIncrements) (incs sz : Text) : Bool × BackupIncrements :=
  match applyEntries sz (entries incs) (-1) s with
  | (none, s') => (false, s')
  | (some first, s') => (true, s'.dropOlder first.toNat)

/-- The operations on the increments of a backup. -/
inductive Op where
  | add (source : Text) (sz : ℤ) (type : IncrementType) (date : ℤ)
  | update (incs sz : Text)

/-- An operation. -/
def step (s : BackupIncrements) : Op → Option BackupIncrements
  | .add source sz type date => some (s.addIncrement source sz type date).2
  | .update incs sz => some (s.updateIncrements incs sz).2

/-- A backup without increments. -/
def start : BackupIncrements := ⟨fun _ => ⟨0, .FULL, 0, [], [], 0⟩, 0, [], []⟩

/-! ## Chains -/

/-- The increments in the order of their identifiers. -/
def chain (s : BackupIncrements) : List Increment := s.increments.map fun e => s.attributes e.2

/-- The template and the map have the same increments; their identifiers are contiguous, the first is a full
backup without a parent, and each other one has the one before as its parent. -/
structure Chained (s : BackupIncrements) : Prop where
  same : s.template = s.increments.map Prod.snd
  ids : s.chain.map Increment.id = s.increments.map Prod.fst
  links : s.chain.IsChain fun a b => b.id = a.id + 1 ∧ b.parentId = a.id
  first : ∀ inc ∈ s.chain.head?, inc.type = .FULL ∧ inc.parentId = -1

/-- The entry can be read and names an increment. -/
def Names (s : BackupIncrements) (entry : Text) : Prop := (s.entryTarget entry).isSome = true

instance (s : BackupIncrements) (entry : Text) : Decidable (s.Names entry) :=
  inferInstanceAs (Decidable (_ = _))

/-- A list has no fault, or one in its first entry. -/
def Careful (s : BackupIncrements) : Op → Prop
  | .add _ _ _ _ => True
  | .update incs _ => (∀ entry ∈ entries incs, s.Names entry) ∨ ∀ entry ∈ (entries incs).head?, ¬ s.Names entry

instance (s : BackupIncrements) : (op : Op) → Decidable (Careful s op)
  | .add _ _ _ _ => isTrue trivial
  | .update _ _ => inferInstanceAs (Decidable (_ ∨ _))

/-! ## What keeps a chain whole -/

/-- A chain with what its operations rely on. -/
structure Whole (s : BackupIncrements) : Prop where
  same : s.template = s.increments.map Prod.snd
  nodup : s.template.Nodup
  fresh : ∀ addr ∈ s.template, addr < s.next
  nonneg : ∀ e ∈ s.increments, 0 ≤ e.1
  ids : ∀ e ∈ s.increments, (s.attributes e.2).id = e.1
  links : s.increments.IsChain fun e e' => e'.1 = e.1 + 1 ∧ (s.attributes e'.2).parentId = e.1
  first : ∀ e ∈ s.increments.head?, (s.attributes e.2).type = .FULL ∧ (s.attributes e.2).parentId = -1

variable {s s' : BackupIncrements}

theorem Whole.chained (h : Whole s) : Chained s := by
  have hids : s.chain.map Increment.id = s.increments.map Prod.fst := by
    unfold chain
    rw [List.map_map]
    exact List.map_congr_left h.ids
  refine ⟨h.same, hids, ?_, ?_⟩
  · unfold chain
    rw [List.isChain_map]
    refine List.IsChain.imp_of_mem_imp ?_ h.links
    intro e e' he he' hlink
    rw [h.ids e he, h.ids e' he']
    exact hlink
  · intro inc hinc
    unfold chain at hinc
    rw [List.head?_map] at hinc
    obtain ⟨e, he, rfl⟩ := Option.map_eq_some_iff.mp hinc
    exact h.first e he

theorem Whole.sorted (h : Whole s) : s.increments.Sorted := by
  have hlt : s.increments.IsChain fun e e' => e.1 < e'.1 := by
    refine List.IsChain.imp ?_ h.links
    intro e e' hlink
    omega
  exact List.isChain_iff_pairwise.mp hlt

theorem whole_start : Whole start := by
  refine ⟨rfl, List.nodup_nil, ?_, ?_, ?_, List.IsChain.nil, ?_⟩
  · exact fun addr h => absurd h List.not_mem_nil
  · exact fun e h => absurd h List.not_mem_nil
  · exact fun e h => absurd h List.not_mem_nil
  · exact fun e h => absurd h (by simp [start])

/-! ## Additions -/

theorem Whole.mem_template (h : Whole s) {e : ℤ × ℕ} (he : e ∈ s.increments) : e.2 ∈ s.template := by
  rw [h.same]
  exact List.mem_map_of_mem he

/-- **An increment at the end** keeps the chain whole. -/
theorem Whole.newIncrement (h : Whole s) {parent : ℤ} {type : IncrementType}
    (hlast : s.increments = [] ∧ parent = -1 ∧ type = .FULL ∨
      ∃ li, s.increments.getLast? = some li ∧ parent = li.1) (source : Text) (sz date : ℤ) :
    Whole (s.newIncrement source sz type date parent) := by
  have hlt : ∀ e ∈ s.increments, e.1 < parent + 1 := by
    intro e he
    rcases hlast with ⟨hnil, -⟩ | ⟨li, hli, rfl⟩
    · rw [hnil] at he
      exact absurd he List.not_mem_nil
    · obtain ⟨front, hfront⟩ := List.getLast?_eq_some_iff.mp hli
      have hsorted := h.sorted
      rw [hfront] at he hsorted
      rcases List.mem_append.mp he with he | he
      · have hlt := (List.pairwise_append.mp hsorted).2.2 e he li (List.mem_singleton_self li)
        omega
      · rw [List.mem_singleton.mp he]
        omega
  have hparent : 0 ≤ parent + 1 := by
    rcases hlast with ⟨-, rfl, -⟩ | ⟨li, hli, rfl⟩
    · omega
    · have hli := h.nonneg li (List.mem_of_getLast? hli)
      omega
  have hinc : (s.newIncrement source sz type date parent).increments =
      s.increments ++ [(parent + 1, s.next)] := OrderedMap.alter_concat_new hlt
  have hold : ∀ e ∈ s.increments, (s.newIncrement source sz type date parent).attributes e.2 =
      s.attributes e.2 :=
    fun e he => Function.update_of_ne (ne_of_lt (h.fresh e.2 (h.mem_template he))) _ _
  have hnew : (s.newIncrement source sz type date parent).attributes s.next =
      ⟨parent + 1, type, date, source, intText sz, parent⟩ := Function.update_self _ _ _
  constructor
  · rw [hinc, List.map_append]
    show s.template ++ [s.next] = _
    rw [h.same]
    rfl
  · refine List.nodup_append.mpr ⟨h.nodup, List.nodup_singleton _, ?_⟩
    intro a ha b hb
    rw [List.mem_singleton.mp hb]
    exact ne_of_lt (h.fresh a ha)
  · intro addr haddr
    rcases List.mem_append.mp haddr with haddr | haddr
    · exact (h.fresh addr haddr).trans (Nat.lt_succ_self _)
    · rw [List.mem_singleton.mp haddr]
      exact Nat.lt_succ_self _
  · intro e he
    rw [hinc] at he
    rcases List.mem_append.mp he with he | he
    · exact h.nonneg e he
    · rw [List.mem_singleton.mp he]
      exact hparent
  · intro e he
    rw [hinc] at he
    rcases List.mem_append.mp he with he | he
    · rw [hold e he]
      exact h.ids e he
    · rw [List.mem_singleton.mp he, hnew]
  · rw [hinc]
    refine List.isChain_append.mpr ⟨?_, List.IsChain.singleton _, ?_⟩
    · refine List.IsChain.imp_of_mem_imp ?_ h.links
      intro e e' _ he' hlink
      rwa [hold e' he']
    · intro x hx y hy
      rw [List.head?_cons, Option.mem_some_iff] at hy
      rw [← hy, hnew]
      rcases hlast with ⟨hnil, -⟩ | ⟨li, hli, rfl⟩
      · rw [hnil] at hx
        exact absurd hx (by simp)
      · rw [Option.some.inj (hx.symm.trans hli)]
        exact ⟨rfl, rfl⟩
  · intro e he
    rw [hinc] at he
    rcases hlast with ⟨hnil, rfl, rfl⟩ | ⟨li, hli, -⟩
    · rw [hnil, List.nil_append, List.head?_cons, Option.mem_some_iff] at he
      rw [← he, hnew]
      exact ⟨rfl, rfl⟩
    · obtain ⟨x, hx⟩ := List.exists_mem_of_ne_nil s.increments (by
        rintro hnil
        rw [hnil] at hli
        exact absurd hli (by simp))
      rw [List.head?_append_of_ne_nil _ (List.ne_nil_of_mem hx)] at he
      rw [hold e (List.mem_of_mem_head? he)]
      exact h.first e he

theorem Whole.addIncrement (h : Whole s) (source : Text) (sz : ℤ) (type : IncrementType) (date : ℤ) :
    Whole (s.addIncrement source sz type date).2 := by
  unfold BackupIncrements.addIncrement
  cases hlast : s.increments.getLast? with
  | none =>
    dsimp only
    split_ifs with htype
    · exact h
    · exact h.newIncrement (Or.inl ⟨List.getLast?_eq_none_iff.mp hlast, rfl, not_not.mp htype⟩) source sz date
  | some li => exact h.newIncrement (Or.inr ⟨li, hlast, rfl⟩) source sz date

/-! ## Updates -/

/-- Only sources are changed. -/
structure Sourced (s s' : BackupIncrements) : Prop where
  increments : s'.increments = s.increments
  template : s'.template = s.template
  next : s'.next = s.next
  attributes : ∀ addr, s'.attributes addr = { s.attributes addr with source := (s'.attributes addr).source }

theorem Sourced.refl (s : BackupIncrements) : Sourced s s := ⟨rfl, rfl, rfl, fun _ => rfl⟩

theorem Sourced.trans {s'' : BackupIncrements} (h : Sourced s s') (h' : Sourced s' s'') : Sourced s s'' := by
  refine ⟨h'.increments.trans h.increments, h'.template.trans h.template, h'.next.trans h.next, ?_⟩
  intro addr
  rw [h'.attributes addr, h.attributes addr]

theorem sourced_modify (s : BackupIncrements) (addr : ℕ) (source : Text) :
    Sourced s (s.modify addr fun inc => { inc with source := source }) := by
  refine ⟨rfl, rfl, rfl, fun a => ?_⟩
  unfold modify
  dsimp only
  by_cases ha : a = addr
  · rw [ha, Function.update_self]
  · rw [Function.update_of_ne ha]

theorem entryTarget_congr (h : s'.increments = s.increments) (entry : Text) :
    s'.entryTarget entry = s.entryTarget entry := by
  unfold entryTarget getIncrement
  rw [h]

/-- What an entry of the list is about is in the map. -/
theorem mem_of_entryTarget {entry source : Text} {id : ℤ} {addr : ℕ}
    (h : s.entryTarget entry = some (id, addr, source)) : (id, addr) ∈ s.increments := by
  unfold entryTarget at h
  split at h
  · exact absurd h (by simp)
  · obtain ⟨a, ha, heq⟩ := Option.map_eq_some_iff.mp h
    rw [Prod.mk.injEq, Prod.mk.injEq] at heq
    rw [← heq.1, ← heq.2.1]
    exact OrderedMap.mem_of_find ha

/-- **The entries after the first one** change sources only. -/
theorem applyEntries_rest (sz : Text) (list : List Text) {first : ℤ} (hfirst : first ≠ -1) :
    ∀ s : BackupIncrements, (∀ entry ∈ list, s.Names entry) →
      ∃ s', applyEntries sz list first s = (some first, s') ∧ Sourced s s' := by
  induction list with
  | nil => exact fun s _ => ⟨s, rfl, Sourced.refl s⟩
  | cons entry list ih =>
    intro s hnames
    obtain ⟨hentry, hrest⟩ := List.forall_mem_cons.mp hnames
    obtain ⟨⟨id, addr, source⟩, htarget⟩ := Option.isSome_iff_exists.mp hentry
    have hsourced := sourced_modify s addr source
    obtain ⟨s', happly, hs'⟩ := ih (s.modify addr fun inc => { inc with source := source }) fun e he => by
      unfold Names
      rw [entryTarget_congr hsourced.increments]
      exact hrest e he
    refine ⟨s', ?_, hsourced.trans hs'⟩
    rw [applyEntries, htarget]
    dsimp only
    rw [if_neg hfirst, if_neg hfirst]
    exact happly

/-- **The increments before one** are dropped. -/
theorem dropOlder_eq {before rest : OrderedMap ℤ ℕ} {n : ℕ}
    (hinc : s.increments = before ++ rest) (htemplate : s.template = s.increments.map Prod.snd)
    (hnodup : s.template.Nodup) (hsorted : s.increments.Sorted) (hnonneg : ∀ e ∈ before, 0 ≤ e.1)
    (hnext : before.IsChain fun e e' => e'.1 = e.1 + 1) (hlast : ∀ e ∈ before.getLast?, e.1 + 1 = n)
    (hrest : ∀ e ∈ rest, (n : ℤ) ≤ e.1) :
    s.dropOlder n = { s with template := rest.map Prod.snd, increments := rest } := by
  induction before using List.reverseRecOn generalizing n s with
  | nil =>
    rw [List.nil_append] at hinc
    have hsame : s = { s with template := rest.map Prod.snd, increments := rest } := by
      rw [← hinc, ← htemplate]
    cases n with
    | zero => exact hsame
    | succ n =>
      have hnone : s.getIncrement n = none := by
        unfold getIncrement
        rw [Option.eq_none_iff_forall_ne_some]
        intro addr haddr
        have hmem := OrderedMap.mem_of_find haddr
        rw [hinc] at hmem
        have hle := hrest _ hmem
        dsimp only at hle
        omega
      rw [dropOlder, hnone]
      exact hsame
  | append_singleton before e ih =>
    obtain ⟨hchain, -, hlink⟩ := List.isChain_append.mp hnext
    have hn := hlast e (by rw [List.getLast?_concat]; rfl)
    have he := hnonneg e (List.mem_append_right before (List.mem_singleton_self e))
    obtain ⟨k, rfl⟩ : ∃ k, n = k + 1 := Nat.exists_eq_succ_of_ne_zero (by omega)
    have hk : (k : ℤ) = e.1 := by omega
    rw [List.append_assoc, List.singleton_append] at hinc
    have hmem : e ∈ s.increments := by
      rw [hinc]
      exact List.mem_append_right before List.mem_cons_self
    have hfind : s.getIncrement k = some e.2 := by
      rw [hk]
      exact hsorted.find_of_mem hmem
    have hsorted' := hsorted
    rw [hinc] at hsorted'
    obtain ⟨hbefore, hafter, hacross⟩ := List.pairwise_append.mp hsorted'
    obtain ⟨hhead, hafter⟩ := List.pairwise_cons.mp hafter
    have hdelete : (s.deleteIncrement k e.2).increments = before ++ rest := by
      show s.increments.filter (fun x => x.1 ≠ (k : ℤ)) = _
      rw [hinc, List.filter_append, List.filter_cons_of_neg (by simp [hk])]
      congr 1
      · refine List.filter_eq_self.mpr fun x hx => decide_eq_true ?_
        rw [hk]
        exact (hacross x hx e List.mem_cons_self).ne
      · refine List.filter_eq_self.mpr fun x hx => decide_eq_true ?_
        rw [hk]
        exact (hhead x hx).ne'
    have herase : (s.deleteIncrement k e.2).template = (before ++ rest).map Prod.snd := by
      have hall : s.template = before.map Prod.snd ++ e.2 :: rest.map Prod.snd := by
        rw [htemplate, hinc, List.map_append, List.map_cons]
      show s.template.erase e.2 = _
      rw [hall] at hnodup ⊢
      rw [List.erase_append_right _ fun hin =>
        (List.nodup_append.mp hnodup).2.2 _ hin _ List.mem_cons_self rfl, List.erase_cons_head,
        List.map_append]
    rw [dropOlder, hfind]
    dsimp only
    rw [ih hdelete (by rw [herase, hdelete])]
    · rfl
    · exact hnodup.sublist List.erase_sublist
    · rw [hdelete]
      refine List.pairwise_append.mpr ⟨hbefore, hafter, fun x hx y hy => ?_⟩
      exact hacross x hx y (List.mem_cons_of_mem e hy)
    · exact fun x hx => hnonneg x (List.mem_append_left _ hx)
    · exact hchain
    · intro x hx
      rw [hk, hlink x hx e (by rw [List.head?_cons]; rfl)]
    · intro x hx
      rw [hk]
      exact (hhead x hx).le

/-- **A list without a fault** changes nothing when it is empty, and any other one starts the chain at the
increment of its first entry. -/
theorem updateIncrements_of_names (sz : Text) {incs : Text} (hs : ∀ e ∈ s.increments, 0 ≤ e.1)
    (h : ∀ entry ∈ entries incs, s.Names entry) :
    s.updateIncrements incs sz = (true, s) ∨ ∃ e ∈ s.increments, ∃ s', s.updateIncrements incs sz =
      (true, s'.dropOlder e.1.toNat) ∧ Sourced (s.modify e.2 fun inc =>
        { inc with type := .FULL, parentId := -1, size := sz }) s' := by
  unfold updateIncrements
  cases hlist : entries incs with
  | nil => exact Or.inl rfl
  | cons entry list =>
    rw [hlist] at h
    obtain ⟨hentry, hrest⟩ := List.forall_mem_cons.mp h
    obtain ⟨⟨id, addr, source⟩, htarget⟩ := Option.isSome_iff_exists.mp hentry
    have hmem := mem_of_entryTarget htarget
    have hid : id ≠ -1 := by
      have hid := hs _ hmem
      dsimp only at hid
      omega
    obtain ⟨s', happly, hs'⟩ := applyEntries_rest sz list hid
      ((s.modify addr fun inc => { inc with type := .FULL, parentId := -1, size := sz }).modify addr
        fun inc => { inc with source := source })
      fun e he => show (s.entryTarget e).isSome = true from hrest e he
    refine Or.inr ⟨(id, addr), hmem, s', ?_, (sourced_modify _ addr source).trans hs'⟩
    rw [applyEntries, htarget]
    dsimp only
    rw [if_pos rfl, if_pos rfl, happly]

/-- A list with a fault in its first entry changes nothing. -/
theorem updateIncrements_of_fault (sz : Text) {incs : Text} {entry : Text}
    (hhead : (entries incs).head? = some entry) (h : ¬ s.Names entry) :
    s.updateIncrements incs sz = (false, s) := by
  obtain ⟨list, hlist⟩ := List.head?_eq_some_iff.mp hhead
  have hnone : s.entryTarget entry = none := Option.not_isSome_iff_eq_none.mp h
  unfold updateIncrements
  rw [hlist, applyEntries, hnone]

/-- **A chain that starts at a later increment** is whole. -/
theorem Whole.startAt (h : Whole s) {e : ℤ × ℕ} (he : e ∈ s.increments) {sz : Text}
    (hs' : Sourced (s.modify e.2 fun inc => { inc with type := .FULL, parentId := -1, size := sz }) s') :
    Whole (s'.dropOlder e.1.toNat) := by
  obtain ⟨before, after, hsplit⟩ := List.append_of_mem he
  have hinc : s'.increments = before ++ e :: after := hs'.increments.trans hsplit
  have htemplate : s'.template = s'.increments.map Prod.snd := by
    rw [hs'.template, hs'.increments]
    exact h.same
  have hnodup : s'.template.Nodup := by
    rw [hs'.template]
    exact h.nodup
  have hsorted : s'.increments.Sorted := by
    rw [hs'.increments]
    exact h.sorted
  have hlinks := h.links
  have horder := h.sorted
  have hsame := h.same
  rw [hsplit] at hlinks horder hsame
  obtain ⟨hbefore, hafter, hlink⟩ := List.isChain_append.mp hlinks
  obtain ⟨hhead, -⟩ := List.pairwise_cons.mp (List.pairwise_append.mp horder).2.1
  have hnonneg := h.nonneg e he
  have hdrop := dropOlder_eq (n := e.1.toNat) hinc htemplate hnodup hsorted
    (fun x hx => h.nonneg x (by rw [hsplit]; exact List.mem_append_left _ hx))
    (hbefore.imp fun _ _ hx => hx.1)
    (fun x hx => by
      have hx' := (hlink x hx e (by rw [List.head?_cons]; rfl)).1
      omega)
    (fun x hx => by
      rcases List.mem_cons.mp hx with rfl | hx
      · omega
      · have hx' := hhead x hx
        omega)
  -- the other increments have their old attributes, but for the sources
  have hother : ∀ x ∈ after, s'.attributes x.2 =
      { s.attributes x.2 with source := (s'.attributes x.2).source } := by
    intro x hx
    have hne : x.2 ≠ e.2 := by
      rintro heq
      have hmap : (before ++ e :: after).map Prod.snd =
          before.map Prod.snd ++ e.2 :: after.map Prod.snd := by
        rw [List.map_append, List.map_cons]
      have hdistinct := h.nodup
      rw [hsame, hmap] at hdistinct
      refine (List.nodup_cons.mp (List.nodup_append.mp hdistinct).2.1).1 ?_
      rw [← heq]
      exact List.mem_map_of_mem hx
    have hx := hs'.attributes x.2
    rwa [show (s.modify e.2 _).attributes x.2 = s.attributes x.2 from Function.update_of_ne hne _ _] at hx
  have hfirst : s'.attributes e.2 = { s.attributes e.2 with
      type := .FULL, parentId := -1, size := sz, source := (s'.attributes e.2).source } := by
    have hx := hs'.attributes e.2
    rwa [show (s.modify e.2 _).attributes e.2 = _ from Function.update_self _ _ _] at hx
  rw [hdrop]
  constructor
  · rfl
  · show ((e :: after).map Prod.snd).Nodup
    have hdistinct := h.nodup
    rw [hsame, List.map_append] at hdistinct
    exact (List.nodup_append.mp hdistinct).2.1
  · intro addr haddr
    show addr < s'.next
    rw [hs'.next]
    refine h.fresh addr ?_
    rw [hsame, List.map_append]
    exact List.mem_append_right _ haddr
  · intro x hx
    exact h.nonneg x (by rw [hsplit]; exact List.mem_append_right before hx)
  · intro x hx
    show (s'.attributes x.2).id = x.1
    rcases List.mem_cons.mp hx with rfl | hx
    · rw [hfirst]
      exact h.ids x he
    · rw [hother x hx]
      exact h.ids x (by rw [hsplit]; exact List.mem_append_right before (List.mem_cons_of_mem e hx))
  · show (e :: after).IsChain fun x y => y.1 = x.1 + 1 ∧ (s'.attributes y.2).parentId = x.1
    refine List.IsChain.imp_of_mem_tail_imp ?_ hafter
    intro x y _ hy hxy
    rw [hother y hy]
    exact hxy
  · intro x hx
    show (s'.attributes x.2).type = _ ∧ _
    rw [List.head?_cons, Option.mem_some_iff] at hx
    rw [← hx, hfirst]
    exact ⟨rfl, rfl⟩

/-! ## Runs -/

theorem Whole.step (h : Whole s) {op : Op} (hop : Careful s op) (hstep : step s op = some s') : Whole s' := by
  cases op with
  | add source sz type date =>
    rw [← Option.some.inj hstep]
    exact h.addIncrement source sz type date
  | update incs sz =>
    rw [← Option.some.inj hstep]
    rcases hop with hnames | hfault
    · rcases updateIncrements_of_names sz h.nonneg hnames with hsame | ⟨e, he, s'', hupdate, hs''⟩
      · rw [hsame]
        exact h
      · rw [hupdate]
        exact h.startAt he hs''
    · cases hhead : (entries incs).head? with
      | none =>
        unfold updateIncrements
        rw [List.head?_eq_none_iff.mp hhead]
        exact h
      | some entry =>
        rw [updateIncrements_of_fault sz hhead (hfault entry hhead)]
        exact h

/-- **Without a fault behind other entries** the chain is whole after every operation, and an update that
fails changes nothing. -/
theorem chained_of_reach (h : Reach step Careful start s) :
    Chained s ∧ ∀ incs sz, Careful s (.update incs sz) → (s.updateIncrements incs sz).1 = false →
      (s.updateIncrements incs sz).2 = s := by
  have hwhole : Whole s := h.inv whole_start fun _ _ _ hs hop hstep => hs.step hop hstep
  refine ⟨hwhole.chained, ?_⟩
  rintro incs sz (hnames | hfault) hfail
  · rcases updateIncrements_of_names sz hwhole.nonneg hnames with hsame | ⟨e, -, s', hupdate, -⟩
    · rw [hsame]
    · rw [hupdate] at hfail
      exact absurd hfail (by simp)
  · cases hhead : (entries incs).head? with
    | none =>
      unfold updateIncrements
      rw [List.head?_eq_none_iff.mp hhead]
      rfl
    | some entry => rw [updateIncrements_of_fault sz hhead (hfault entry hhead)]

/-- The increment 0 is merged into 1, and a list of an increment that is not there is refused. -/
def merged : Option BackupIncrements :=
  runChecked step Careful start
    [.add "a".toList 10 .FULL 100, .add "b".toList 5 .INCREMENT 200, .add "c".toList 5 .INCREMENT 300,
      .update "1:x,2:y".toList "12".toList, .update "0:z,2:y".toList "12".toList]

theorem chained_merged : ∃ s, merged = some s ∧
    (s.chain.map fun inc => (inc.id, inc.parentId)) = [(1, -1), (2, 1)] ∧ Chained s := by
  have hcheck : (merged.elim false fun s =>
      decide ((s.chain.map fun inc => (inc.id, inc.parentId)) = [(1, -1), (2, 1)])) = true := by
    decide +kernel
  cases hs : merged with
  | none =>
    rw [hs] at hcheck
    exact absurd hcheck (by decide)
  | some s =>
    rw [hs] at hcheck
    exact ⟨s, rfl, of_decide_eq_true hcheck, (chained_of_reach (reach_of_runChecked _ hs)).1⟩

/-- The second entry of the list names no increment. -/
def halfUpdated : Option BackupIncrements :=
  runEvents step start
    [.add "a".toList 10 .FULL 100, .add "b".toList 5 .INCREMENT 200, .update "1:x,7:y".toList "12".toList]

/-- The chain has two beginnings. -/
theorem not_chained :
    ¬ ∀ s, Run step start s → Chained s ∧ ∀ incs sz, (s.updateIncrements incs sz).1 = false →
      (s.updateIncrements incs sz).2 = s := by
  intro h
  have hcheck : (halfUpdated.elim false fun s =>
      decide ((s.chain.map fun inc => (inc.id, inc.parentId)) = [(0, -1), (1, -1)])) = true := by
    decide +kernel
  cases hs : halfUpdated with
  | none =>
    rw [hs] at hcheck
    exact absurd hcheck (by decide)
  | some s =>
    rw [hs] at hcheck
    have hlinks := (h s (run_of_runEvents _ hs)).1.links.imp fun _ _ hlink => hlink.2
    have hpairs : (s.chain.map fun inc => (inc.id, inc.parentId)).IsChain fun a b => b.2 = a.1 :=
      (List.isChain_map _).mpr hlinks
    rw [of_decide_eq_true hcheck] at hpairs
    exact absurd hpairs (by decide)

end BackupIncrements
