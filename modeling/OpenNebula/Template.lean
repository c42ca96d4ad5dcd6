/-
# Templates (`include/Template.h`, `src/template/Template.cc`)

A template is a multimap of attributes: a list in the order of the names in which attributes of one name
keep the order in which they came.  `Template.set` puts an attribute behind the ones of its name, or
in their place when the template replaces.  The names are the ones that the constructor of an
attribute makes (`attributeName`); it is not the identity on all of them.

`get_set_same` and `get_set_ne` are what `set` does to the attributes of a name.
-/
import OpenNebula.Attribute

open TextNumber

/-! ## Names -/

/-- The name that the constructor of `Attribute` gives: in capitals, and a name of XML. -/
def attributeName (aname : Text) : Text :=
  let name := aname.map Char.toUpper
  match aname with
  | [] => name
  | c :: _ =>
    if !(c.isAlpha || c = '_') || ['X', 'M', 'L'].isPrefixOf aname then 'O' :: 'N' :: 'E' :: '_' :: name
    else name

/-- A name that an attribute can have. -/
def IsAttributeName (name : Text) : Prop := ∃ aname, attributeName aname = name

/-- `Attribute::name`. -/
def Attribute.name : Attribute → Text
  | .single name _ => name
  | .vector name _ => name

/-- `SingleAttribute(name, value)`. -/
def newSingle (name value : Text) : Attribute := .single (attributeName name) value

/-- The value of a single attribute. -/
def Attribute.single? : Attribute → Option Text
  | .single _ value => some value
  | .vector _ _ => none

/-- The values of a vector attribute. -/
def Attribute.vector? : Attribute → Option AttributeMap
  | .single _ _ => none
  | .vector _ va => some va

theorem name_newSingle (name value : Text) : (newSingle name value).name = attributeName name := by
  rw [newSingle, Attribute.name]

theorem isAttributeName_newSingle (name value : Text) :
    IsAttributeName (newSingle name value).name :=
  ⟨name, (name_newSingle name value).symm⟩

/-! ## Templates -/

/-- **`Template`.** -/
structure Template where
  replaceMode : Bool
  xmlRoot : Text
  attributes : List Attribute
  sorted : attributes.Pairwise fun a b => a.name ≤ b.name
  named : ∀ a ∈ attributes, IsAttributeName a.name

/-- `multimap::insert`: behind the attributes of the same name. -/
def insertAttribute (a : Attribute) : List Attribute → List Attribute
  | [] => [a]
  | b :: l => if a.name < b.name then a :: b :: l else b :: insertAttribute a l

theorem mem_insertAttribute {a b : Attribute} {l : List Attribute} :
    b ∈ insertAttribute a l ↔ b = a ∨ b ∈ l := by
  induction l with
  | nil => rw [insertAttribute, List.mem_singleton, or_iff_left List.not_mem_nil]
  | cons d l ih =>
    rw [insertAttribute]
    split
    · rw [List.mem_cons]
    · rw [List.mem_cons, ih, List.mem_cons]
      tauto

theorem sorted_insertAttribute {a : Attribute} {l : List Attribute}
    (h : l.Pairwise fun a b => a.name ≤ b.name) :
    (insertAttribute a l).Pairwise fun a b => a.name ≤ b.name := by
  induction l with
  | nil => exact List.pairwise_singleton _ _
  | cons d l ih =>
    obtain ⟨hd, hl⟩ := List.pairwise_cons.mp h
    rw [insertAttribute]
    split
    · rename_i hlt
      refine List.pairwise_cons.mpr ⟨?_, h⟩
      intro b hb
      rcases List.mem_cons.mp hb with rfl | hb
      · exact hlt.le
      · exact hlt.le.trans (hd b hb)
    · rename_i hlt
      refine List.pairwise_cons.mpr ⟨?_, ih hl⟩
      intro b hb
      rcases mem_insertAttribute.mp hb with rfl | hb
      · exact not_lt.mp hlt
      · exact hd b hb

theorem filter_insertAttribute_same {a : Attribute} {l : List Attribute}
    (h : l.Pairwise fun a b => a.name ≤ b.name) :
    (insertAttribute a l).filter (fun b => b.name = a.name) =
      l.filter (fun b => b.name = a.name) ++ [a] := by
  induction l with
  | nil => simp [insertAttribute]
  | cons d l ih =>
    obtain ⟨hd, hl⟩ := List.pairwise_cons.mp h
    rw [insertAttribute]
    split
    · rename_i hlt
      have hnone : (d :: l).filter (fun b => b.name = a.name) = [] := by
        rw [List.filter_eq_nil_iff]
        intro b hb
        have hle : d.name ≤ b.name := by
          rcases List.mem_cons.mp hb with rfl | hb
          · exact le_refl _
          · exact hd b hb
        simpa using (hlt.trans_le hle).ne'
      rw [List.filter_cons_of_pos (by simp), hnone]
      rfl
    · by_cases hname : d.name = a.name
      · rw [List.filter_cons_of_pos (by simpa using hname), ih hl,
          List.filter_cons_of_pos (by simpa using hname)]
        rfl
      · rw [List.filter_cons_of_neg (by simpa using hname), ih hl,
          List.filter_cons_of_neg (by simpa using hname)]

theorem filter_insertAttribute_ne {a : Attribute} {l : List Attribute} {name : Text}
    (hne : name ≠ a.name) :
    (insertAttribute a l).filter (fun b => b.name = name) = l.filter (fun b => b.name = name) := by
  induction l with
  | nil =>
    rw [insertAttribute, List.filter_cons_of_neg (by simpa using hne.symm)]
  | cons d l ih =>
    rw [insertAttribute]
    split
    · rw [List.filter_cons_of_neg (by simpa using hne.symm)]
    · rw [List.filter_cons, ih, List.filter_cons]

namespace Template

/-- `attributes.equal_range(name)`. -/
def get (t : Template) (name : Text) : List Attribute := t.attributes.filter fun a => a.name = name

/-- `Template::get` for the vectors of a name. -/
def vectors (t : Template) (name : Text) : List AttributeMap := (t.get name).filterMap Attribute.vector?

/-- `Template::get` for the single attributes of a name. -/
def singles (t : Template) (name : Text) : List Text := (t.get name).filterMap Attribute.single?

/-- `Template::get` for a value: the first single attribute of the name. -/
def getValue (t : Template) (name : Text) : Option Text := (t.singles name).head?

/-- `Template::set`. -/
def set (t : Template) (a : Attribute) (ha : IsAttributeName a.name) : Template :=
  let kept := if t.replaceMode then t.attributes.filter fun b => b.name ≠ a.name else t.attributes
  have hsub : kept.Sublist t.attributes := by
    unfold kept
    split
    · exact List.filter_sublist
    · exact List.Sublist.refl _
  { replaceMode := t.replaceMode
    xmlRoot := t.xmlRoot
    attributes := insertAttribute a kept
    sorted := sorted_insertAttribute (t.sorted.sublist hsub)
    named := by
      intro b hb
      rcases mem_insertAttribute.mp hb with rfl | hb
      · exact ha
      · exact t.named b (hsub.subset hb) }

/-- `Template::add`. -/
def add (t : Template) (name value : Text) : Template := 
  t.set (newSingle name value) (isAttributeName_newSingle name value)

variable {t : Template} {a : Attribute} {name value : Text}

theorem get_set_same (ha : IsAttributeName a.name) :
    (t.set a ha).get a.name = (if t.replaceMode then [] else t.get a.name) ++ [a] := by
  unfold get set
  dsimp only
  cases t.replaceMode with
  | false => exact filter_insertAttribute_same t.sorted
  | true =>
    rw [if_pos rfl, if_pos rfl, filter_insertAttribute_same (t.sorted.sublist List.filter_sublist)]
    congr 1
    rw [List.filter_filter, List.filter_eq_nil_iff]
    intro b _
    simp

theorem get_set_ne (ha : IsAttributeName a.name) (hne : name ≠ a.name) :
    (t.set a ha).get name = t.get name := by
  unfold get set
  dsimp only
  rw [filter_insertAttribute_ne hne]
  split
  · rw [List.filter_filter]
    apply List.filter_congr
    intro b _
    by_cases hb : b.name = name
    · simp [hb, hne]
    · simp [hb]
  · rfl

theorem get_add_same (name value : Text) :
    (t.add name value).get (attributeName name) =
      (if t.replaceMode then [] else t.get (attributeName name)) ++ [newSingle name value] := by
  rw [add, ← name_newSingle name value]
  exact get_set_same _

theorem get_add_ne {aname : Text} (hne : name ≠ attributeName aname) (value : Text) :
    (t.add aname value).get name = t.get name := by
  rw [← name_newSingle aname value] at hne
  exact get_set_ne _ hne

theorem get_of_not_isAttributeName (h : ¬ IsAttributeName name) : t.get name = [] := by
  unfold get
  rw [List.filter_eq_nil_iff]
  intro a ha
  have hne : a.name ≠ name := by
    intro heq
    exact h (heq ▸ t.named a ha)
  simpa using hne

theorem singles_of_get (h : t.get name = []) : t.singles name = [] := by
  rw [singles, h, List.filterMap_nil]

theorem vectors_of_get (h : t.get name = []) : t.vectors name = [] := by
  rw [vectors, h, List.filterMap_nil]

end Template
