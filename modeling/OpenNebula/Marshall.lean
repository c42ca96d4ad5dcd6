/-
# Vector attributes as one text (`src/common/Attribute.cc`)

`marshall` writes the values of a vector attribute as `NAME=VALUE`, with a separator between them, and
`unmarshall` cuts such a text at the first occurrence of the separator, and again behind it.  Nothing is
escaped: a value that ends with the start of the separator moves the cut (`not_unmarshall_marshall`).
`unmarshall_marshall_iff` says exactly when the values are found again.

The loop of `unmarshall` does not end for the empty separator; `Unmarshalls` says that it ends, and with
which values.  A missing separator is `@^_^@`.
-/
import OpenNebula.Attribute
import OpenNebula.Delimiter

open TextNumber Delimiter

namespace AttributeMap

/-- `VectorAttribute::magic_sep`. -/
def magicSep : Text := "@^_^@".toList

def mySep (sep : Option Text) : Text := sep.getD magicSep

/-- One value of a vector. -/
def pairText (e : Text × Text) : Text := e.1 ++ '=' :: e.2

/-- `VectorAttribute::marshall`. -/
def marshall (sep : Option Text) (va : AttributeMap) : Text :=
  match va.sortedEntries with
  | [] => []
  | e :: entries => entries.foldl (fun os e => os ++ mySep sep ++ pairText e) (pairText e)

/-- A value goes into the map, when the map has none of this name. -/
def insertPair (va : AttributeMap) (tmp : Text) : AttributeMap :=
  match cut ['='] tmp with
  | none => va
  | some (name, value) => if va.lookup name = none then va.insert name value else va

/-- The loop of `VectorAttribute::unmarshall`, with the text from `bpos` on. -/
def unmarshallLoop (sep : Text) : ℕ → Text → AttributeMap → Option AttributeMap
  | 0, _, _ => none
  | n + 1, rest, va =>
    match cut sep rest with
    | none => some (va.insertPair rest)
    | some (tmp, rest) => unmarshallLoop sep n rest (va.insertPair tmp)

/-- `VectorAttribute::unmarshall` ends, and the map is then `va'`. -/
def Unmarshalls (sep : Option Text) (sattr : Text) (va va' : AttributeMap) : Prop :=
  ∃ n, unmarshallLoop (mySep sep) n sattr va = some va'

variable {va va' : AttributeMap} {sep : Option Text} {k v sattr tmp : Text}

/-! ## One value -/

theorem cut_pairText (hk : '=' ∉ k) : cut ['='] (pairText (k, v)) = some (k, v) := by
  refine cut_eq_some_iff.mpr ⟨by rw [pairText, List.append_assoc]; rfl, ?_⟩
  rintro x (_ | ⟨c, y⟩) hxy hy hpre
  · exact hy rfl
  · obtain ⟨rest, hrest⟩ := hpre
    rw [← (List.cons.inj hrest).1] at hxy
    rw [← hxy] at hk
    exact hk (List.mem_append_right x List.mem_cons_self)

theorem eq_pairText (h : cut ['='] tmp = some (k, v)) : tmp = pairText (k, v) := by
  rw [(cut_eq_some_iff.mp h).1, pairText, List.append_assoc]
  rfl

/-- A value that is the start of another one has the same name. -/
theorem name_eq_of_prefix {k' v' : Text} (hk : '=' ∉ k) (hk' : '=' ∉ k')
    (h : pairText (k, v) <+: pairText (k', v')) : k = k' := by
  obtain ⟨rest, hrest⟩ := h
  have hcut : cut ['='] (pairText (k, v) ++ rest) = some (k, v ++ rest) := by
    have heq : pairText (k, v) ++ rest = pairText (k, v ++ rest) := by
      rw [pairText, pairText, List.append_assoc]
      rfl
    rw [heq]
    exact cut_pairText hk
  rw [hrest, cut_pairText hk'] at hcut
  exact (Prod.mk.inj (Option.some.inj hcut)).1.symm

theorem lookup_insertPair (hk : '=' ∉ k) (k' : Text) :
    (va.insertPair (pairText (k, v))).lookup k' =
      (va.lookup k').or (if k' = k then some v else none) := by
  unfold insertPair
  rw [cut_pairText hk]
  dsimp only
  split
  · rename_i hnone
    split
    · rename_i heq
      rw [heq, AList.lookup_insert, hnone]
      rfl
    · rename_i hne
      rw [AList.lookup_insert_ne hne, Option.or_none]
  · rename_i hsome
    split
    · rename_i heq
      rw [heq]
      obtain ⟨w, hw⟩ := Option.ne_none_iff_exists'.mp hsome
      rw [hw]
      rfl
    · rw [Option.or_none]

/-! ## The loop -/

/-- **The loop of `unmarshall`** ends when there are pieces, and each piece goes into the map. -/
theorem unmarshalls_iff :
    Unmarshalls sep sattr va va' ↔ ∃ ps, Splits (mySep sep) sattr ps ∧ ps.foldl insertPair va = va' := by
  constructor
  · rintro ⟨n, h⟩
    induction n generalizing sattr va with
    | zero => exact absurd h (Option.some_ne_none va').symm
    | succ n ih =>
      rw [unmarshallLoop] at h
      split at h
      · rename_i hcut
        exact ⟨[sattr], .last hcut, Option.some.inj h⟩
      · rename_i tmp rest hcut
        obtain ⟨ps, hps, hfold⟩ := ih h
        exact ⟨tmp :: ps, .cons hcut hps, hfold⟩
  · rintro ⟨ps, hps, hfold⟩
    induction hps generalizing va with
    | last hcut =>
      refine ⟨1, ?_⟩
      rw [unmarshallLoop, hcut]
      exact congrArg some hfold
    | cons hcut _ ih =>
      obtain ⟨n, hn⟩ := ih hfold
      refine ⟨n + 1, ?_⟩
      rw [unmarshallLoop, hcut]
      exact hn

/-- Every value of the map was there before, or is a piece. -/
theorem mem_pieces (ps : List Text) (h : (ps.foldl insertPair va).lookup k = some v) :
    va.lookup k = some v ∨ pairText (k, v) ∈ ps := by
  induction ps generalizing va with
  | nil => exact Or.inl h
  | cons tmp ps ih =>
    rcases ih h with hva | hmem
    · unfold insertPair at hva
      split at hva
      · exact Or.inl hva
      · rename_i name value hcut
        split at hva
        · by_cases hk : k = name
          · subst hk
            rw [AList.lookup_insert] at hva
            rw [← Option.some.inj hva, ← eq_pairText hcut]
            exact Or.inr List.mem_cons_self
          · rw [AList.lookup_insert_ne hk] at hva
            exact Or.inl hva
        · exact Or.inl hva
    · exact Or.inr (List.mem_cons_of_mem tmp hmem)

/-- The map that is made of values. -/
theorem lookup_foldl (entries : List (Text × Text)) (hkeys : ∀ e ∈ entries, '=' ∉ e.1) (k : Text) :
    ((entries.map pairText).foldl insertPair va).lookup k = (va.lookup k).or (entries.lookup k) := by
  induction entries generalizing va with
  | nil => exact (Option.or_none).symm
  | cons e entries ih =>
    obtain ⟨he, hrest⟩ := List.forall_mem_cons.mp hkeys
    rw [List.map_cons, List.foldl_cons, ih hrest, lookup_insertPair he, Option.or_assoc,
      List.lookup_cons]
    by_cases hk : k = e.1
    · rw [if_pos hk, hk, beq_self_eq_true]
      rfl
    · rw [if_neg hk, beq_eq_false_iff_ne.mpr hk]
      rfl

/-! ## There and back -/

/-- The pieces that the text of a map is put together from. -/
def pieces (va : AttributeMap) : List Text :=
  if va.sortedEntries = [] then [[]] else va.sortedEntries.map pairText

theorem marshall_eq (sep : Option Text) (va : AttributeMap) :
    va.marshall sep = (mySep sep).intercalate va.pieces := by
  unfold marshall pieces
  cases va.sortedEntries with
  | nil => exact (List.intercalate_singleton).symm
  | cons e entries =>
    rw [if_neg (List.cons_ne_nil e entries)]
    dsimp only
    have hfold : ∀ os : Text, entries.foldl (fun os e => os ++ mySep sep ++ pairText e) os =
        (mySep sep).intercalate (os :: entries.map pairText) := by
      induction entries with
      | nil => exact fun os => (List.intercalate_singleton).symm
      | cons e' entries ih =>
        intro os
        rw [List.foldl_cons, ih, List.map_cons, List.intercalate_cons_cons]
        cases entries with
        | nil => rw [List.map_nil, List.intercalate_singleton, List.intercalate_singleton]
        | cons e'' entries =>
          rw [List.map_cons, List.intercalate_cons_cons, List.intercalate_cons_cons]
          simp only [List.append_assoc]
    exact hfold (pairText e)

theorem lookup_sortedEntries (va : AttributeMap) (k : Text) :
    va.sortedEntries.lookup k = va.lookup k := by
  refine Option.ext fun v => ?_
  rw [List.lookup_eq_some_iff, ← mem_sortedEntries (e := (k, v))]
  constructor
  · rintro ⟨front, rest, heq, -⟩
    rw [heq]
    exact List.mem_append_right front List.mem_cons_self
  · intro hmem
    obtain ⟨front, rest, heq⟩ := List.append_of_mem hmem
    refine ⟨front, rest, heq, fun e he => bne_iff_ne.mpr fun hk => ?_⟩
    have hnodup := va.nodup_sortedEntries
    rw [heq, List.map_append, List.map_cons, List.nodup_append] at hnodup
    exact hnodup.2.2 e.1 (List.mem_map_of_mem he) k List.mem_cons_self hk.symm

/-- The text of a map is read back: the names have their values again, and no others. -/
def ReadBack (sep : Option Text) (va : AttributeMap) : Prop :=
  ∃ va', Unmarshalls sep (va.marshall sep) ∅ va' ∧ ∀ k, va'.lookup k = va.lookup k

/-- When the values are found, they are the pieces, in their order. -/
theorem allClean_of_readBack (hkeys : ∀ e ∈ va.sortedEntries, '=' ∉ e.1) (h : ReadBack sep va) :
    AllClean (mySep sep) va.pieces := by
  obtain ⟨va', hrun, hsame⟩ := h
  obtain ⟨ps, hps, rfl⟩ := unmarshalls_iff.mp hrun
  rw [marshall_eq] at hps
  unfold pieces at hps ⊢
  split at hps
  · rename_i hnil
    rw [if_pos hnil, AllClean, List.infix_nil]
    exact hps.ne_nil
  · rename_i hne
    rw [if_neg hne]
    have hpre : ∀ p ∈ va.sortedEntries.map pairText, ∀ q ∈ va.sortedEntries.map pairText,
        p <+: q → p = q := by
      intro p hp q hq hpq
      obtain ⟨⟨k, v⟩, he, rfl⟩ := List.mem_map.mp hp
      obtain ⟨⟨k', v'⟩, he', rfl⟩ := List.mem_map.mp hq
      obtain rfl := name_eq_of_prefix (hkeys _ he) (hkeys _ he') hpq
      have hv := mem_sortedEntries.mp he
      rw [mem_sortedEntries.mp he'] at hv
      rw [show v' = v from Option.some.inj hv]
    have hnodup : (va.sortedEntries.map pairText).Nodup := by
      refine List.Nodup.map_on (fun e he e' he' heq => ?_) (List.Nodup.of_map _ va.nodup_sortedEntries)
      have hcut := cut_pairText (v := e.2) (hkeys e he)
      rw [heq, cut_pairText (hkeys e' he')] at hcut
      exact (Option.some.inj hcut).symm
    have hsub : va.sortedEntries.map pairText ⊆ ps := by
      intro p hp
      obtain ⟨⟨k, v⟩, he, rfl⟩ := List.mem_map.mp hp
      have hv := hsame k
      rw [mem_sortedEntries.mp he] at hv
      rcases mem_pieces ps hv with hempty | hmem
      · rw [AList.lookup_empty] at hempty
        exact absurd hempty (Option.some_ne_none v).symm
      · exact hmem
    have hmap : va.sortedEntries.map pairText ≠ [] := fun h => hne (List.map_eq_nil_iff.mp h)
    have heq := hps.eq_of_perm hpre (hps.perm hmap hnodup hsub)
    rw [heq] at hps
    exact splits_intercalate_iff.mp hps

/-- **Vector attributes are read back** exactly when no occurrence of the separator starts inside of
`NAME=VALUE`, where the separator behind it counts for all but the last one. -/
theorem unmarshall_marshall_iff (sep : Option Text) (va : AttributeMap)
    (hkeys : ∀ e ∈ va.sortedEntries, '=' ∉ e.1) :
    ReadBack sep va ↔ AllClean (mySep sep) va.pieces := by
  refine ⟨allClean_of_readBack hkeys, fun h => ?_⟩
  refine ⟨va.pieces.foldl insertPair ∅, unmarshalls_iff.mpr ⟨va.pieces, ?_, rfl⟩, fun k => ?_⟩
  · rw [marshall_eq]
    exact splits_intercalate_iff.mpr h
  · have hlookup : va.pieces.foldl insertPair ∅ = (va.sortedEntries.map pairText).foldl insertPair ∅ := by
      unfold pieces
      split
      · rename_i hnil
        rw [hnil]
        rfl
      · rfl
    rw [hlookup, lookup_foldl _ hkeys, AList.lookup_empty, Option.none_or, lookup_sortedEntries]

/-- A value with an `=` and a start of the separator is read back. -/
def plainMap : AttributeMap := AList.insert "B".toList "@^=".toList (AList.insert "A".toList [] ∅)

theorem readBack_plainMap : ReadBack none plainMap :=
  (unmarshall_marshall_iff none plainMap (by decide)).mpr (by decide)

/-- The value of `A` ends with the start of the separator. -/
def overlapMap : AttributeMap :=
  AList.insert "B".toList "y".toList (AList.insert "A".toList "x@^_^".toList ∅)

theorem not_unmarshall_marshall :
    ¬ ∀ va : AttributeMap,
      (∀ e ∈ va.sortedEntries, e.1 ≠ [] ∧ e.1.map Char.toUpper = e.1 ∧ '=' ∉ e.1 ∧
        ¬ magicSep <:+: e.1 ∧ ¬ magicSep <:+: e.2) → ReadBack none va := by
  intro h
  have hclean := allClean_of_readBack (by decide) (h overlapMap (by decide))
  have hpieces : overlapMap.pieces = ["A=x@^_^".toList, "B=y".toList] := by decide
  rw [hpieces] at hclean
  exact hclean.1 "A=x".toList "@^_^".toList (by decide) (by decide) (by decide)

end AttributeMap
