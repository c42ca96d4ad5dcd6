/-
# Attributes of a template (`include/Attribute.h`, `src/common/Attribute.cc`, `src/template/Template.cc`)

An attribute of a template is a text or a vector of named texts.  This file has the operations on a
vector and the way it goes through XML: `AttributeMap.item` is what `to_xml` writes and
`singleXmlAtt`, `vectorXmlAtt` and `rebuildAttributes` are the readers of `Template`.

`vectorXmlAtt_item` says that a standard parser gives a vector back: every name has its value again,
where a value that is empty and a missing one are the same for `vector_value`.
-/
import OpenNebula.XmlText

open TextNumber XmlText

/-- `VectorAttribute`: the map of the values; the name of the attribute is kept apart. -/
abbrev AttributeMap := AList fun _ : Text => Text

namespace AttributeMap

/-! ## Operations -/

/-- `VectorAttribute::vector_value(name)`: a missing value is the empty text. -/
def vectorValue (va : AttributeMap) (name : Text) : Text := (va.lookup name).getD []

/-- A text that is a number and nothing else, for a 32-bit `int`. -/
def readInt (t : Text) : Option ℤ :=
  if t.isEmpty then none
  else
    let e := getSigned 10 32 t
    if e.ok && e.rest.isEmpty then some e.value else none

/-- `VectorAttribute::vector_value(name, value)` for an `int`. -/
def vectorInt (va : AttributeMap) (name : Text) : Option ℤ :=
  match va.lookup name with
  | none => none
  | some t => readInt t

/-- `VectorAttribute::replace(name, value)`. -/
def replace (va : AttributeMap) (name value : Text) : AttributeMap := va.insert name value

/-- `VectorAttribute::remove(name)`. -/
def remove (va : AttributeMap) (name : Text) : AttributeMap := va.erase name

/-- `VectorAttribute::merge(vattr, replace)`. -/
def merge (va vattr : AttributeMap) (replace : Bool) : AttributeMap :=
  vattr.entries.foldl (fun va e =>
    if va.lookup e.1 = none then va.insert e.1 e.2
    else if replace then (va.erase e.1).insert e.1 e.2
    else va) va

/-- The values in the order of their names. -/
def sortedEntries (va : AttributeMap) : List (Text × Text) :=
  (va.entries.map fun e => (e.1, e.2)).insertionSort fun a b => a.1 ≤ b.1

/-- What `VectorAttribute::to_xml` writes. -/
def item (name : Text) (va : AttributeMap) : Item := .vector name va.sortedEntries

end AttributeMap

/-- `Attribute`. -/
inductive Attribute
  | single (name value : Text)
  | vector (name : Text) (value : AttributeMap)

/-! ## Readers -/

/-- `Template::single_xml_att`. -/
def singleXmlAtt (name : Text) : List XmlNode → Option Attribute
  | [.text content] => some (.single name content)
  | [.cdata content] => some (.single name content)
  | _ => none

/-- The node is not an element. -/
def XmlNode.isNotElement : XmlNode → Bool
  | .element _ _ => false
  | _ => true

/-- A child of the element of a vector: an element that starts with a text is a value. -/
def readValue (va : AttributeMap) : XmlNode → AttributeMap
  | .element name (.text content :: _) => va.replace name content
  | .element name (.cdata content :: _) => va.replace name content
  | _ => va

/-- `Template::vector_xml_att`. -/
def vectorXmlAtt (name : Text) (children : List XmlNode) : Option Attribute :=
  match children.dropWhile XmlNode.isNotElement with
  | [] => none
  | c :: cs => some (.vector name ((c :: cs).foldl readValue ∅))

/-- The attribute of a node. -/
def xmlAtt : XmlNode → Option Attribute
  | .element name children => (singleXmlAtt name children).or (vectorXmlAtt name children)
  | _ => none

/-- The attributes that `Template::rebuild_attributes` finds, in the order of the nodes. -/
def rebuildAttributes : XmlNode → List Attribute
  | .element _ children => children.filterMap xmlAtt
  | _ => []

namespace AttributeMap

variable {va vattr : AttributeMap} {k name value : Text}

/-! ## Values after an operation -/

theorem lookup_replace :
    (va.replace name value).lookup k = if k = name then some value else va.lookup k := by
  unfold replace
  split
  · rename_i h
    rw [h, AList.lookup_insert]
  · rename_i h
    exact AList.lookup_insert_ne h

theorem lookup_remove : (va.remove name).lookup k = if k = name then none else va.lookup k := by
  unfold remove
  split
  · rename_i h
    rw [h, AList.lookup_erase]
  · rename_i h
    exact AList.lookup_erase_ne h

theorem vectorValue_replace :
    (va.replace name value).vectorValue k = if k = name then value else va.vectorValue k := by
  unfold vectorValue
  rw [lookup_replace]
  split <;> rfl

theorem vectorValue_remove :
    (va.remove name).vectorValue k = if k = name then [] else va.vectorValue k := by
  unfold vectorValue
  rw [lookup_remove]
  split <;> rfl

/-- A missing value is not a number, like the empty text. -/
theorem vectorInt_eq : va.vectorInt k = readInt (va.vectorValue k) := by
  unfold vectorInt vectorValue
  cases va.lookup k with
  | none => rfl
  | some t => rfl

/-- One value of a merge. -/
theorem lookup_mergeStep (e : Σ _ : Text, Text) :
    (if va.lookup e.1 = none then va.insert e.1 e.2
      else if true = true then (va.erase e.1).insert e.1 e.2 else va).lookup k =
    if k = e.1 then some e.2 else va.lookup k := by
  by_cases hk : k = e.1
  · subst hk
    split
    · rw [AList.lookup_insert, if_pos rfl]
    · rw [if_pos rfl, AList.lookup_insert, if_pos rfl]
  · rw [if_neg hk]
    split
    · exact AList.lookup_insert_ne hk
    · rw [if_pos rfl, AList.lookup_insert_ne hk, AList.lookup_erase_ne hk]

/-- **A merge that replaces takes the values of the second vector, and the others of the first.** -/
theorem lookup_merge : (va.merge vattr true).lookup k = (vattr.lookup k).or (va.lookup k) := by
  unfold merge AList.lookup
  have hnodup := vattr.nodupKeys
  generalize vattr.entries = l at hnodup
  induction l generalizing va with
  | nil => rfl
  | cons e l ih =>
    rw [List.nodupKeys_cons] at hnodup
    rw [List.foldl_cons]
    refine (ih hnodup.2).trans ?_
    have hstep := @lookup_mergeStep va k e
    unfold AList.lookup at hstep
    rw [hstep]
    by_cases hk : k = e.1
    · subst hk
      have hl : List.dlookup e.1 l = none := List.dlookup_eq_none.mpr hnodup.1
      rw [hl, Option.none_or, if_pos rfl, List.dlookup_cons_eq, Option.some_or]
    · rw [if_neg hk, List.dlookup_cons_ne _ _ hk]

/-! ## Through XML -/

theorem mem_sortedEntries {e : Text × Text} : e ∈ va.sortedEntries ↔ va.lookup e.1 = some e.2 := by
  rw [sortedEntries, List.mem_insertionSort, List.mem_map]
  refine Iff.trans ?_ AList.mem_lookup_iff.symm
  constructor
  · rintro ⟨e', he', rfl⟩
    exact he'
  · intro he
    exact ⟨⟨e.1, e.2⟩, he, rfl⟩

theorem nodup_sortedEntries (va : AttributeMap) : (va.sortedEntries.map Prod.fst).Nodup := by
  have hperm : (va.sortedEntries.map Prod.fst).Perm va.keys := by
    refine ((List.perm_insertionSort _ _).map _).trans ?_
    rw [List.map_map]
    exact List.Perm.refl _
  exact hperm.nodup_iff.mpr va.keys_nodup

/-- The values of a vector can be stored. -/
def Storable (va : AttributeMap) : Prop :=
  ∀ k v, va.lookup k = some v → isName k = true ∧ isValue v = true

theorem storable_item (hname : isName name = true) (h : va.Storable) :
    XmlText.Storable (va.item name) :=
  ⟨hname, fun e he => h e.1 e.2 (mem_sortedEntries.mp he)⟩

/-- A name that is not the one of the node keeps its value. -/
theorem lookup_readValue_ne {e : Text × Text} {n : XmlNode} (h : ReadsEntry e n) (hk : k ≠ e.1) :
    (readValue va n).lookup k = va.lookup k := by
  obtain ⟨a, v⟩ := e
  obtain ⟨children, rfl, hvalue⟩ := h
  cases hvalue with
  | value hne => rw [readValue, lookup_replace, if_neg hk]
  | nothing => rfl
  | empty => rw [readValue, lookup_replace, if_neg hk]

/-- The name of the node has its value, unless there is none. -/
theorem lookup_readValue_eq {e : Text × Text} {n : XmlNode} (h : ReadsEntry e n)
    (hnone : va.lookup e.1 = none) :
    (readValue va n).lookup e.1 = some e.2 ∨ e.2 = [] ∧ (readValue va n).lookup e.1 = none := by
  obtain ⟨a, v⟩ := e
  obtain ⟨children, rfl, hvalue⟩ := h
  cases hvalue with
  | value hne => exact Or.inl (by rw [readValue, lookup_replace, if_pos rfl])
  | nothing => exact Or.inr ⟨rfl, hnone⟩
  | empty => exact Or.inl (by rw [readValue, lookup_replace, if_pos rfl])

section Fold

variable {entries : List (Text × Text)} {nodes : List XmlNode}

theorem lookup_readValues_of_notMem (h : List.Forall₂ ReadsEntry entries nodes)
    (hk : k ∉ entries.map Prod.fst) : (nodes.foldl readValue va).lookup k = va.lookup k := by
  induction h generalizing va with
  | nil => rfl
  | cons he _ ih =>
    rw [List.map_cons, List.mem_cons, not_or] at hk
    rw [List.foldl_cons, ih hk.2, lookup_readValue_ne he hk.1]

theorem lookup_readValues_of_mem (h : List.Forall₂ ReadsEntry entries nodes)
    (hnodup : (entries.map Prod.fst).Nodup) {e : Text × Text} (he : e ∈ entries)
    (hnone : va.lookup e.1 = none) :
    (nodes.foldl readValue va).lookup e.1 = some e.2 ∨
      e.2 = [] ∧ (nodes.foldl readValue va).lookup e.1 = none := by
  induction h generalizing va with
  | nil => exact absurd he List.not_mem_nil
  | @cons e' n entries nodes hread hrest ih =>
    rw [List.map_cons, List.nodup_cons] at hnodup
    rw [List.foldl_cons]
    rcases List.mem_cons.mp he with rfl | he
    · rw [lookup_readValues_of_notMem hrest hnodup.1]
      exact lookup_readValue_eq hread hnone
    · have hne : e.1 ≠ e'.1 := fun heq => hnodup.1 (heq ▸ List.mem_map_of_mem he)
      exact ih hnodup.2 he ((lookup_readValue_ne hread hne).trans hnone)

end Fold

/-- The vector that was read has the values of the one that was written, and no others. -/
structure SameValues (va va' : AttributeMap) : Prop where
  value : ∀ k, va'.vectorValue k = va.vectorValue k
  lookup : ∀ k v, va'.lookup k = some v → va.lookup k = some v

theorem sameValues_readValues {nodes : List XmlNode}
    (h : List.Forall₂ ReadsEntry va.sortedEntries nodes) :
    SameValues va (nodes.foldl readValue ∅) := by
  have hcases : ∀ k, (nodes.foldl readValue ∅).lookup k = va.lookup k ∨
      va.lookup k = some [] ∧ (nodes.foldl readValue ∅).lookup k = none := by
    intro k
    cases hk : va.lookup k with
    | none =>
      refine Or.inl ?_
      rw [lookup_readValues_of_notMem h, AList.lookup_empty]
      intro hmem
      obtain ⟨e, he, rfl⟩ := List.mem_map.mp hmem
      rw [mem_sortedEntries.mp he] at hk
      exact absurd hk (by simp)
    | some v =>
      have hmem : (k, v) ∈ va.sortedEntries := mem_sortedEntries.mpr hk
      rcases lookup_readValues_of_mem h va.nodup_sortedEntries hmem (AList.lookup_empty _) with
        hread | ⟨hv, hread⟩
      · exact Or.inl hread
      · exact Or.inr ⟨by rw [show v = [] from hv], hread⟩
  constructor
  · intro k
    unfold vectorValue
    rcases hcases k with heq | ⟨hempty, hnone⟩
    · rw [heq]
    · rw [hempty, hnone]
      rfl
  · intro k v hv
    rcases hcases k with heq | ⟨-, hnone⟩
    · rw [← heq, hv]
    · rw [hnone] at hv
      exact absurd hv (by simp)

/-- **A vector goes through XML.**  The node that a standard parser makes of it is read as a vector
with the same values. -/
theorem xmlAtt_item {n : XmlNode} (h : Reads (va.item name) n) (hne : ∃ k, k ∈ va) :
    ∃ va', xmlAtt n = some (.vector name va') ∧ SameValues va va' := by
  cases h with
  | @vector _ _ children hchildren =>
    refine ⟨children.foldl readValue ∅, ?_, sameValues_readValues hchildren⟩
    -- there is a value, so the first node is an element
    obtain ⟨k, hk⟩ := hne
    obtain ⟨v, hv⟩ := Option.isSome_iff_exists.mp (AList.lookup_isSome.mpr hk)
    have hmem : (k, v) ∈ va.sortedEntries := mem_sortedEntries.mpr hv
    generalize va.sortedEntries = entries at hchildren hmem
    cases hchildren with
    | nil => exact absurd hmem List.not_mem_nil
    | cons he hrest =>
      obtain ⟨grand, rfl, -⟩ := he
      rfl

end AttributeMap
