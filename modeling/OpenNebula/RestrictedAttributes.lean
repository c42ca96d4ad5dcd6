/-
# Restricted attributes (`parse_attributes`, `restricted_values`, `Template::check_restricted`)

A user may not change the restricted attributes of an object.  The list has names, for single
attributes, and pairs `VECTOR/NAME`; `parseAttributes` makes a map of it.  `checkRestricted` compares a
new template with the old one, the base, and gives the new one the restricted single attributes that it
does not have.

The values of a vector are compared as texts, the name in front of the value.  `perm_values` says when
that is enough: no name is the start of another one.  `Unambiguous` is what a list needs, and
`unambiguous_iff` says that it is what the list needs: exactly for these lists the restricted attributes
are unchanged when the check passes and `SinglesAgree`, which is about the single attributes that the
check does not look at.
-/
import OpenNebula.OrderedMap
import OpenNebula.Template

open TextNumber

/-! ## Names in front of values -/

namespace Labels

variable {α : Type*} [DecidableEq α]

/-- No text of a list is the start of another one. -/
def PrefixFree (l : List (List α)) : Prop := ∀ s ∈ l, ∀ s' ∈ l, s <+: s' → s = s'

/-- The names of a table with their values behind them. -/
def labelled (names : List (List α)) (m : List α → Option (List α)) : List (List α) :=
  names.filterMap fun s => (m s).map (s ++ ·)

/-- The rest of a text that starts with a name. -/
def strip (s w : List α) : Option (List α) := if s <+: w then some (w.drop s.length) else none

variable {names : List (List α)} {s : List α}

theorem strip_append (hfree : PrefixFree names) (hs : s ∈ names) {s' : List α} (hs' : s' ∈ names)
    (v : List α) : strip s (s' ++ v) = if s' = s then some v else none := by
  unfold strip
  by_cases heq : s' = s
  · rw [heq, if_pos (List.prefix_append _ _), if_pos rfl, List.drop_left]
  · rw [if_neg heq, if_neg]
    intro hstart
    rcases List.prefix_or_prefix_of_prefix hstart (List.prefix_append s' v) with h | h
    · exact heq (hfree s hs s' hs' h).symm
    · exact heq (hfree s' hs' s hs h)

theorem filterMap_single {β : Type*} {l : List (List α)} (hnodup : l.Nodup) (hs : s ∈ l)
    (o : Option β) : (l.filterMap fun s' => if s' = s then o else none) = o.toList := by
  induction l with
  | nil => exact absurd hs List.not_mem_nil
  | cons a l ih =>
    obtain ⟨ha, hl⟩ := List.nodup_cons.mp hnodup
    by_cases heq : a = s
    · have hrest : (l.filterMap fun s' => if s' = s then o else none) = [] := by
        rw [List.filterMap_eq_nil_iff]
        intro s' hs'
        apply if_neg
        rintro rfl
        exact ha (heq ▸ hs')
      rw [List.filterMap_cons, if_pos heq, hrest]
      cases o <;> rfl
    · rw [List.filterMap_cons, if_neg heq]
      exact ih hl ((List.mem_cons.mp hs).resolve_left (Ne.symm heq))

/-- The values of a name are the texts that start with it. -/
theorem filterMap_strip (hfree : PrefixFree names) (hnodup : names.Nodup) (hs : s ∈ names)
    (tables : List (List α → Option (List α))) :
    (tables.flatMap (labelled names)).filterMap (strip s) = tables.filterMap fun m => m s := by
  rw [List.filterMap_flatMap, List.filterMap_eq_flatMap_toList]
  apply List.flatMap_congr
  intro m _
  rw [labelled, List.filterMap_filterMap]
  have hstep : (names.filterMap fun s' => ((m s').map (s' ++ ·)).bind (strip s)) =
      names.filterMap fun s' => if s' = s then m s else none := by
    apply List.filterMap_congr
    intro s' hs'
    by_cases heq : s' = s
    · rw [if_pos heq, heq]
      cases m s with
      | none => rfl
      | some v =>
        rw [Option.map_some, Option.bind_some, strip_append hfree hs hs, if_pos rfl]
    · rw [if_neg heq]
      cases m s' with
      | none => rfl
      | some v => rw [Option.map_some, Option.bind_some, strip_append hfree hs hs', if_neg heq]
  rw [hstep, filterMap_single hnodup hs]

/-- **When no name is the start of another one, the texts determine the values of every name.** -/
theorem perm_values (hfree : PrefixFree names) (hnodup : names.Nodup) (hs : s ∈ names)
    {tables tables' : List (List α → Option (List α))}
    (h : (tables.flatMap (labelled names)).Perm (tables'.flatMap (labelled names))) :
    (tables.filterMap fun m => m s).Perm (tables'.filterMap fun m => m s) := by
  have hperm := h.filterMap (strip s)
  rwa [filterMap_strip hfree hnodup hs, filterMap_strip hfree hnodup hs] at hperm

end Labels

/-! ## The list of restricted attributes -/

/-- `std::set::insert`. -/
def setInsert (s : Text) (l : List Text) : List Text :=
  if s ∈ l then l else l.orderedInsert (· ≤ ·) s

/-- An element of the list: the text in front of the first `/` is the name of a vector. -/
def parseStep (m : OrderedMap Text (List Text)) (va : Text) : OrderedMap Text (List Text) :=
  if '/' ∈ va then
    let avector := va.takeWhile (· ≠ '/')
    m.alter avector fun subs => setInsert (va.drop (avector.length + 1)) (subs.getD [])
  else m.alter va fun subs => subs.getD []

/-- `parse_attributes`. -/
def parseAttributes (as : List Text) : OrderedMap Text (List Text) := as.foldl parseStep []

/-- The values of the names of a vector are restricted. -/
def RestrictedSub (as : List Text) (v s : Text) : Prop := '/' ∉ v ∧ v ++ '/' :: s ∈ as

/-- A single attribute is restricted. -/
def RestrictedSingle (as : List Text) (x : Text) : Prop := '/' ∉ x ∧ x ∈ as

theorem takeWhile_slash {v : Text} (hv : '/' ∉ v) (s : Text) :
    (v ++ '/' :: s).takeWhile (· ≠ '/') = v := by
  rw [List.takeWhile_append_of_pos, List.takeWhile_cons_of_neg (by simp), List.append_nil]
  intro c hc
  have hne : c ≠ '/' := fun heq => hv (heq ▸ hc)
  simpa using hne

theorem split_slash {va : Text} (h : '/' ∈ va) :
    '/' ∉ va.takeWhile (· ≠ '/') ∧
      va.takeWhile (· ≠ '/') ++ '/' :: va.drop ((va.takeWhile (· ≠ '/')).length + 1) = va := by
  constructor
  · intro hmem
    have hne := List.mem_takeWhile_imp hmem
    simp at hne
  · induction va with
    | nil => exact absurd h List.not_mem_nil
    | cons c va ih =>
      by_cases hc : c = '/'
      · subst hc
        rw [List.takeWhile_cons_of_neg (by simp)]
        rfl
      · rw [List.takeWhile_cons_of_pos (by simpa using hc)]
        have hrest := ih ((List.mem_cons.mp h).resolve_left (Ne.symm hc))
        rw [List.cons_append, List.length_cons, List.drop_succ_cons, hrest]

theorem mem_setInsert {s s' : Text} {l : List Text} : s' ∈ setInsert s l ↔ s' = s ∨ s' ∈ l := by
  unfold setInsert
  split
  · rename_i h
    constructor
    · exact Or.inr
    · rintro (rfl | h')
      · exact h
      · exact h'
  · rw [List.mem_orderedInsert]

theorem nodup_setInsert {s : Text} {l : List Text} (h : l.Nodup) : (setInsert s l).Nodup := by
  unfold setInsert
  split
  · exact h
  · rename_i hs
    exact (List.perm_orderedInsert _ s l).nodup_iff.mpr (List.nodup_cons.mpr ⟨hs, h⟩)

/-- What the map has for a name. -/
structure Parsed (as : List Text) (v : Text) (o : Option (List Text)) : Prop where
  isSome : o.isSome ↔ RestrictedSingle as v ∨ ∃ s, RestrictedSub as v s
  mem : ∀ s, s ∈ o.getD [] ↔ RestrictedSub as v s
  nodup : (o.getD []).Nodup

theorem sorted_parseStep {m : OrderedMap Text (List Text)} (h : m.Sorted) (va : Text) :
    (parseStep m va).Sorted := by
  unfold parseStep
  split
  · exact h.alter
  · exact h.alter

theorem restrictedSub_concat {as : List Text} {va v s : Text} :
    RestrictedSub (as ++ [va]) v s ↔ RestrictedSub as v s ∨ ('/' ∉ v ∧ v ++ '/' :: s = va) := by
  unfold RestrictedSub
  rw [List.mem_append, List.mem_singleton]
  tauto

theorem restrictedSingle_concat {as : List Text} {va x : Text} :
    RestrictedSingle (as ++ [va]) x ↔ RestrictedSingle as x ∨ ('/' ∉ x ∧ x = va) := by
  unfold RestrictedSingle
  rw [List.mem_append, List.mem_singleton]
  tauto

theorem parsed_parseStep {as : List Text} {m : OrderedMap Text (List Text)} (hsorted : m.Sorted)
    (h : ∀ v, Parsed as v (m.find v)) (va v : Text) :
    Parsed (as ++ [va]) v ((parseStep m va).find v) := by
  obtain ⟨hsome, hmem, hnodup⟩ := h v
  unfold parseStep
  split
  · rename_i hslash
    obtain ⟨hname, hva⟩ := split_slash hslash
    dsimp only
    rw [hsorted.find_alter]
    generalize va.takeWhile (· ≠ '/') = name at hname hva
    generalize va.drop (name.length + 1) = sub at hva
    have hsingle : ¬ ('/' ∉ v ∧ v = va) := fun hv => hv.1 (hv.2 ▸ hslash)
    have hsub : ∀ s, ('/' ∉ v ∧ v ++ '/' :: s = va) ↔ v = name ∧ s = sub := by
      intro s
      constructor
      · rintro ⟨hv, heq⟩
        rw [← hva] at heq
        have hname' := congrArg (List.takeWhile (· ≠ '/')) heq
        rw [takeWhile_slash hv, takeWhile_slash hname] at hname'
        subst hname'
        exact ⟨rfl, (List.cons.inj (List.append_cancel_left heq)).2⟩
      · rintro ⟨rfl, rfl⟩
        exact ⟨hname, hva⟩
    by_cases hv : v = name
    · subst hv
      rw [if_pos rfl]
      refine ⟨?_, ?_, nodup_setInsert hnodup⟩
      · constructor
        · intro _
          exact .inr ⟨sub, restrictedSub_concat.mpr (.inr ((hsub sub).mpr ⟨rfl, rfl⟩))⟩
        · intro _
          rfl
      · intro s
        rw [Option.getD_some, mem_setInsert, hmem, restrictedSub_concat, hsub]
        tauto
    · rw [if_neg hv]
      refine ⟨?_, ?_, hnodup⟩
      · rw [hsome, restrictedSingle_concat, or_iff_left hsingle]
        simp only [restrictedSub_concat, hsub, hv, false_and, or_false]
      · intro s
        rw [hmem, restrictedSub_concat, hsub]
        simp only [hv, false_and, or_false]
  · rename_i hslash
    rw [hsorted.find_alter]
    have hsub : ∀ s, ¬ ('/' ∉ v ∧ v ++ '/' :: s = va) := by
      rintro s ⟨-, heq⟩
      apply hslash
      rw [← heq]
      exact List.mem_append_right _ List.mem_cons_self
    by_cases hv : v = va
    · subst hv
      rw [if_pos rfl]
      refine ⟨?_, ?_, hnodup⟩
      · constructor
        · intro _
          exact .inl (restrictedSingle_concat.mpr (.inr ⟨hslash, rfl⟩))
        · intro _
          rfl
      · intro s
        rw [Option.getD_some, hmem, restrictedSub_concat, or_iff_left (hsub s)]
    · rw [if_neg hv]
      refine ⟨?_, ?_, hnodup⟩
      · rw [hsome, restrictedSingle_concat]
        simp only [restrictedSub_concat, hsub, hv, and_false, or_false]
      · intro s
        rw [hmem, restrictedSub_concat, or_iff_left (hsub s)]

/-- **The map has the restricted attributes of the list.** -/
theorem parsed_parseAttributes (as : List Text) :
    (parseAttributes as).Sorted ∧ ∀ v, Parsed as v ((parseAttributes as).find v) := by
  induction as using List.reverseRecOn with
  | nil =>
    refine ⟨List.Pairwise.nil, ?_⟩
    intro v
    refine ⟨?_, ?_, List.nodup_nil⟩ <;> simp [parseAttributes, OrderedMap.find, RestrictedSingle,
      RestrictedSub]
  | append_singleton as va ih =>
    have hfold : parseAttributes (as ++ [va]) = parseStep (parseAttributes as) va :=
      List.foldl_concat _ _ _ _
    rw [hfold]
    exact ⟨sorted_parseStep ih.1 va, parsed_parseStep ih.1 ih.2 va⟩

/-! ## The check -/

/-- The values of the restricted names of a vector, in the order of the texts. -/
def restrictedStrings (vname : Text) (vsubs : List Text) (tmpl : Template) : List Text :=
  ((tmpl.vectors vname).flatMap fun vattr =>
    vsubs.filterMap fun sub => (vattr.lookup sub).map (sub ++ ·)).insertionSort (· ≤ ·)

/-- `restricted_values`: also whether there is a vector. -/
def restrictedValues (vname : Text) (vsubs : List Text) (tmpl : Template) : Bool × List Text :=
  (!(tmpl.vectors vname).isEmpty, restrictedStrings vname vsubs tmpl)

/-- `Template::check_restricted` for the entries of the map: the attribute that is in the way, and the
template as the loop leaves it. -/
def checkRestricted (base : Template) (append : Bool) :
    OrderedMap Text (List Text) → Template → Option Text × Template
  | [], t => (none, t)
  | rit :: ras, t =>
    if !rit.2.isEmpty then
      let new := restrictedValues rit.1 rit.2 t
      let old := restrictedValues rit.1 rit.2 base
      let hasRestricted := new.1 || (!append && old.1)
      if new.2 ≠ old.2 ∧ hasRestricted then (some rit.1, t) else checkRestricted base append ras t
    else
      match t.getValue rit.1 with
      | some ra =>
        if (base.getValue rit.1).getD [] ≠ ra then (some rit.1, t)
        else checkRestricted base append ras t
      | none =>
        match base.getValue rit.1 with
        | some ra => checkRestricted base append ras (t.add rit.1 ra)
        | none => checkRestricted base append ras t

/-- The values of a name in the vectors of a template. -/
def Template.subValues (t : Template) (v s : Text) : List Text := (t.vectors v).filterMap (·.lookup s)

/-- **The restricted attributes are the ones of the base.** -/
structure Unchanged (as : List Text) (t base : Template) : Prop where
  subs : ∀ v s, RestrictedSub as v s → (t.subValues v s).Perm (base.subValues v s)
  singles : ∀ x, RestrictedSingle as x → t.singles x = base.singles x

/-- **What a list needs**: a name of a vector is not the start of another one, an attribute is not
listed in both ways, and a single attribute that is added keeps its name. -/
structure Unambiguous (as : List Text) : Prop where
  prefixFree : ∀ v s s', IsAttributeName v → RestrictedSub as v s → RestrictedSub as v s' →
    s <+: s' → s = s'
  separate : ∀ x s, IsAttributeName x → RestrictedSingle as x → ¬ RestrictedSub as x s
  kept : ∀ x, IsAttributeName x → RestrictedSingle as x → attributeName x = x

/-- The values of a single attribute behind the first one are the same, and the new template does not
give the empty value to an attribute that the base does not have. -/
def SinglesAgree (as : List Text) (base t : Template) : Prop :=
  ∀ x, RestrictedSingle as x → (t.singles x).tail = (base.singles x).tail ∧
    (t.getValue x = some [] → base.getValue x ≠ none)

/-! ### One entry -/

/-- What is known of an entry that the check has passed. -/
def Passed (base t t' : Template) (e : Text × List Text) : Prop :=
  (e.2 ≠ [] → t'.get e.1 = t.get e.1 ∧
    ((t.vectors e.1).flatMap fun m => Labels.labelled e.2 m.lookup).Perm
      ((base.vectors e.1).flatMap fun m => Labels.labelled e.2 m.lookup)) ∧
  (e.2 = [] → (∀ x, t.getValue e.1 = some x →
      t'.singles e.1 = t.singles e.1 ∧ (base.getValue e.1).getD [] = x) ∧
    (t.getValue e.1 = none → t'.singles e.1 = (base.getValue e.1).toList))

theorem singles_congr {t t' : Template} {x : Text} (h : t.get x = t'.get x) :
    t.singles x = t'.singles x ∧ t.getValue x = t'.getValue x ∧ t.vectors x = t'.vectors x := by
  unfold Template.getValue Template.singles Template.vectors
  rw [h]
  exact ⟨rfl, rfl, rfl⟩

theorem Passed.congr {base t₀ t t' : Template} {e : Text × List Text} (hget : t.get e.1 = t₀.get e.1)
    (h : Passed base t t' e) : Passed base t₀ t' e := by
  obtain ⟨hsingles, hvalue, hvectors⟩ := singles_congr hget
  unfold Passed at h ⊢
  rwa [hget, hsingles, hvalue, hvectors] at h

theorem perm_of_restrictedStrings {vname : Text} {vsubs : List Text} {t base : Template}
    (h : restrictedStrings vname vsubs t = restrictedStrings vname vsubs base) :
    ((t.vectors vname).flatMap fun m => Labels.labelled vsubs m.lookup).Perm
      ((base.vectors vname).flatMap fun m => Labels.labelled vsubs m.lookup) := by
  unfold restrictedStrings at h
  refine (List.perm_insertionSort (· ≤ ·) _).symm.trans ?_
  refine List.Perm.trans ?_ (List.perm_insertionSort (· ≤ ·) _)
  exact List.Perm.of_eq h

theorem restrictedStrings_of_isEmpty {vname : Text} {vsubs : List Text} {t : Template}
    (h : (restrictedValues vname vsubs t).1 = false) : restrictedStrings vname vsubs t = [] := by
  rw [restrictedValues, Bool.not_eq_false', List.isEmpty_iff] at h
  rw [restrictedStrings, h]
  rfl

/-- A vector passes exactly when the texts are the same; the test for vectors changes nothing. -/
theorem passes_iff {vname : Text} {vsubs : List Text} {t base : Template} :
    ¬ ((restrictedValues vname vsubs t).2 ≠ (restrictedValues vname vsubs base).2 ∧
      ((restrictedValues vname vsubs t).1 || (!false && (restrictedValues vname vsubs base).1)) = true) ↔
      restrictedStrings vname vsubs t = restrictedStrings vname vsubs base := by
  constructor
  · intro h
    by_contra hne
    apply h
    refine ⟨hne, ?_⟩
    by_contra hhas
    rw [Bool.not_eq_true, Bool.or_eq_false_iff, Bool.not_false, Bool.true_and] at hhas
    exact hne (by rw [restrictedStrings_of_isEmpty hhas.1, restrictedStrings_of_isEmpty hhas.2])
  · rintro heq ⟨hne, -⟩
    exact hne heq

theorem getValue_eq_none {t : Template} {x : Text} (h : t.getValue x = none) : t.singles x = [] :=
  List.head?_eq_none_iff.mp h

theorem isAttributeName_of_getValue {t : Template} {x v : Text} (h : t.getValue x = some v) :
    IsAttributeName x := by
  by_contra hx
  rw [Template.getValue, Template.singles_of_get (Template.get_of_not_isAttributeName hx)] at h
  exact absurd h (by simp)

theorem singles_add {t : Template} {x : Text} (hx : attributeName x = x) (hnone : t.getValue x = none)
    (v : Text) : (t.add x v).singles x = [v] := by
  have hget := Template.get_add_same (t := t) x v
  rw [hx] at hget
  have hsingles := getValue_eq_none hnone
  unfold Template.singles at hsingles ⊢
  rw [hget, List.filterMap_append]
  have hnew : [newSingle x v].filterMap Attribute.single? = [v] := by
    rw [newSingle]
    rfl
  rw [hnew]
  split
  · rfl
  · rw [hsingles, List.nil_append]

/-- **The run of the check.** -/
theorem passed_of_checkRestricted {base : Template} {ras : OrderedMap Text (List Text)}
    (hkeys : (ras.map Prod.fst).Nodup)
    (hkept : ∀ e ∈ ras, e.2 = [] → IsAttributeName e.1 → attributeName e.1 = e.1) {t t' : Template}
    (h : checkRestricted base false ras t = (none, t')) :
    (∀ x, x ∉ ras.map Prod.fst → t'.get x = t.get x) ∧ ∀ e ∈ ras, Passed base t t' e := by
  induction ras generalizing t with
  | nil =>
    rw [checkRestricted, Prod.mk.injEq] at h
    exact ⟨fun x _ => by rw [h.2], fun e he => absurd he List.not_mem_nil⟩
  | cons e ras ih =>
    obtain ⟨hnew, hkeys⟩ := List.nodup_cons.mp hkeys
    have hkept' := fun e' he' => hkept e' (List.mem_cons_of_mem _ he')
    -- a state that only the first entry may have changed
    have hstep : ∀ t₁ : Template, (∀ x, x ≠ e.1 → t₁.get x = t.get x) →
        checkRestricted base false ras t₁ = (none, t') →
        (t'.get e.1 = t₁.get e.1 → Passed base t t' e) →
        (∀ x, x ∉ (e :: ras).map Prod.fst → t'.get x = t.get x) ∧
          ∀ e' ∈ e :: ras, Passed base t t' e' := by
      intro t₁ hframe hrest hfirst
      obtain ⟨hother, hpassed⟩ := ih hkeys hkept' hrest
      constructor
      · intro x hx
        rw [List.map_cons, List.mem_cons, not_or] at hx
        rw [hother x hx.2, hframe x hx.1]
      · intro e' he'
        rcases List.mem_cons.mp he' with rfl | he'
        · exact hfirst (hother _ hnew)
        · have hne : e'.1 ≠ e.1 := fun heq => hnew (heq ▸ List.mem_map_of_mem he')
          exact (hpassed e' he').congr (hframe _ hne)
    rw [checkRestricted] at h
    by_cases hempty : e.2 = []
    · rw [hempty, List.isEmpty_nil, Bool.not_true, if_neg (by decide)] at h
      cases hvalue : t.getValue e.1 with
      | some ra =>
        rw [hvalue] at h
        dsimp only at h
        split_ifs at h with hdiff
        · exact absurd (congrArg Prod.fst h) (by simp)
        apply hstep t (fun _ _ => rfl) h
        intro hget
        refine ⟨fun hne => absurd hempty hne, fun _ => ⟨?_, ?_⟩⟩
        · intro x hx
          rw [hvalue] at hx
          refine ⟨(singles_congr hget).1, ?_⟩
          rw [← Option.some.inj hx]
          exact not_ne_iff.mp hdiff
        · intro hnone
          rw [hvalue] at hnone
          exact absurd hnone (by simp)
      | none =>
        rw [hvalue] at h
        dsimp only at h
        have hsome : ∀ x, ¬ t.getValue e.1 = some x := by
          intro x hx
          rw [hvalue] at hx
          exact absurd hx (by simp)
        cases hbase : base.getValue e.1 with
        | some ra =>
          rw [hbase] at h
          have hname := hkept e List.mem_cons_self hempty (isAttributeName_of_getValue hbase)
          apply hstep (t.add e.1 ra) ?_ h
          · intro hget
            refine ⟨fun hne => absurd hempty hne, fun _ => ⟨fun x hx => absurd hx (hsome x), ?_⟩⟩
            intro _
            rw [(singles_congr hget).1, singles_add hname hvalue, hbase]
            rfl
          · intro x hx
            apply Template.get_add_ne
            rwa [hname]
        | none =>
          rw [hbase] at h
          apply hstep t (fun _ _ => rfl) h
          intro hget
          refine ⟨fun hne => absurd hempty hne, fun _ => ⟨fun x hx => absurd hx (hsome x), ?_⟩⟩
          intro _
          rw [(singles_congr hget).1, getValue_eq_none hvalue, hbase]
          rfl
    · rw [if_pos (by simpa using hempty)] at h
      dsimp only at h
      split_ifs at h with hdiff
      · exact absurd (congrArg Prod.fst h) (by simp)
      apply hstep t (fun _ _ => rfl) h
      intro hget
      refine ⟨fun _ => ⟨hget, ?_⟩, fun hnil => absurd hnil hempty⟩
      exact perm_of_restrictedStrings (passes_iff.mp hdiff)

/-! ### Lists without ambiguity -/

theorem find_of_mem_parse {as : List Text} {e : Text × List Text} (he : e ∈ parseAttributes as) :
    Parsed as e.1 (some e.2) := by
  obtain ⟨hsorted, hparsed⟩ := parsed_parseAttributes as
  have hfind := hparsed e.1
  rwa [hsorted.find_of_mem he] at hfind

theorem nodup_keys_parse (as : List Text) : ((parseAttributes as).map Prod.fst).Nodup :=
  List.pairwise_map.mpr ((parsed_parseAttributes as).1.imp fun h => h.ne)

theorem single_of_mem_parse {as : List Text} {e : Text × List Text} (he : e ∈ parseAttributes as)
    (hempty : e.2 = []) : RestrictedSingle as e.1 := by
  have hparsed := find_of_mem_parse he
  rcases hparsed.isSome.mp rfl with hsingle | ⟨s, hsub⟩
  · exact hsingle
  · have hmem := (hparsed.mem s).mpr hsub
    rw [hempty] at hmem
    exact absurd hmem List.not_mem_nil

theorem mem_parse_of_sub {as : List Text} {v s : Text} (h : RestrictedSub as v s) :
    ∃ subs, (v, subs) ∈ parseAttributes as ∧ s ∈ subs := by
  have hparsed := (parsed_parseAttributes as).2 v
  obtain ⟨subs, hsubs⟩ := Option.isSome_iff_exists.mp (hparsed.isSome.mpr (.inr ⟨s, h⟩))
  have hmem := (hparsed.mem s).mpr h
  rw [hsubs] at hmem
  exact ⟨subs, OrderedMap.mem_of_find hsubs, hmem⟩

theorem mem_parse_of_single {as : List Text} {x : Text} (h : RestrictedSingle as x)
    (hsub : ∀ s, ¬ RestrictedSub as x s) : (x, []) ∈ parseAttributes as := by
  have hparsed := (parsed_parseAttributes as).2 x
  obtain ⟨subs, hsubs⟩ := Option.isSome_iff_exists.mp (hparsed.isSome.mpr (.inl h))
  have hempty : subs = [] := by
    rw [List.eq_nil_iff_forall_not_mem]
    intro s hs
    apply hsub s
    rw [← hparsed.mem s, hsubs]
    exact hs
  rw [hempty] at hsubs
  exact OrderedMap.mem_of_find hsubs

/-- The values of a single attribute after a check that has passed. -/
theorem singles_eq_iff {base t t' : Template} {x : Text} (h : Passed base t t' (x, [])) :
    t'.singles x = base.singles x ↔ (t.singles x).tail = (base.singles x).tail ∧
      (t.getValue x = some [] → base.getValue x ≠ none) := by
  obtain ⟨hsome, hnone⟩ := h.2 rfl
  dsimp only at hsome hnone
  unfold Template.getValue at hsome hnone ⊢
  rcases hnew : t.singles x with _ | ⟨a, l⟩ <;> rw [hnew] at hsome hnone
  · rw [hnone rfl]
    rcases base.singles x with _ | ⟨b, l'⟩
    · simp
    · simp
  · obtain ⟨hsame, hfirst⟩ := hsome a rfl
    rw [hsame]
    rcases hold : base.singles x with _ | ⟨b, l'⟩ <;> rw [hold] at hfirst
    · rw [← hfirst]
      simp
    · rw [← hfirst]
      simp

/-- **For a list without ambiguity the restricted attributes are unchanged exactly if the single
attributes agree where the check does not look.** -/
theorem Unambiguous.not_changed_iff {as : List Text} (h : Unambiguous as) {base t t' : Template}
    (hrun : checkRestricted base false (parseAttributes as) t = (none, t')) :
    Unchanged as t' base ↔ SinglesAgree as base t := by
  have hkept : ∀ e ∈ parseAttributes as, e.2 = [] → IsAttributeName e.1 → attributeName e.1 = e.1 :=
    fun e he hempty hname => h.kept e.1 hname (single_of_mem_parse he hempty)
  obtain ⟨-, hpassed⟩ := passed_of_checkRestricted (nodup_keys_parse as) hkept hrun
  have hsingle : ∀ x, RestrictedSingle as x → (t'.singles x = base.singles x ↔
      (t.singles x).tail = (base.singles x).tail ∧
        (t.getValue x = some [] → base.getValue x ≠ none)) := by
    intro x hx
    by_cases hname : IsAttributeName x
    · exact singles_eq_iff (hpassed _ (mem_parse_of_single hx fun s => h.separate x s hname hx))
    · have hnil : ∀ t : Template, t.singles x = [] := fun t =>
        Template.singles_of_get (Template.get_of_not_isAttributeName hname)
      unfold Template.getValue
      rw [hnil, hnil, hnil]
      simp
  constructor
  · intro hunchanged x hx
    exact (hsingle x hx).mp (hunchanged.singles x hx)
  · intro hagree
    refine ⟨?_, fun x hx => (hsingle x hx).mpr (hagree x hx)⟩
    intro v s hsub
    unfold Template.subValues
    by_cases hname : IsAttributeName v
    · obtain ⟨subs, hmem, hs⟩ := mem_parse_of_sub hsub
      have hparsed := find_of_mem_parse hmem
      obtain ⟨hget, hperm⟩ := (hpassed _ hmem).1 (List.ne_nil_of_mem hs)
      have hfree : Labels.PrefixFree subs := by
        intro s₁ h₁ s₂ h₂ hstart
        exact h.prefixFree v s₁ s₂ hname ((hparsed.mem s₁).mp h₁) ((hparsed.mem s₂).mp h₂) hstart
      rw [(singles_congr hget).2.2]
      have htables : ∀ l : List AttributeMap,
          (l.flatMap fun m => Labels.labelled subs m.lookup) =
            (l.map fun m => (m.lookup : Text → Option Text)).flatMap (Labels.labelled subs) := by
        intro l
        rw [List.flatMap_map]
      have hvalues : ∀ l : List AttributeMap, (l.filterMap fun m => m.lookup s) =
          (l.map fun m => (m.lookup : Text → Option Text)).filterMap fun m => m s := by
        intro l
        rw [List.filterMap_map]
        rfl
      rw [htables, htables] at hperm
      rw [hvalues, hvalues]
      exact Labels.perm_values hfree hparsed.nodup hs hperm
    · have hnil : ∀ t : Template, t.vectors v = [] := fun t =>
        Template.vectors_of_get (Template.get_of_not_isAttributeName hname)
      rw [hnil, hnil]

/-! ### Lists with an ambiguity -/

/-- A template without attributes. -/
def emptyTemplate : Template where
  replaceMode := false
  xmlRoot := []
  attributes := []
  sorted := List.Pairwise.nil
  named := fun _ h => absurd h List.not_mem_nil

theorem singles_emptyTemplate (y : Text) : emptyTemplate.singles y = [] := rfl

/-- A template with one attribute. -/
def oneTemplate (a : Attribute) (ha : IsAttributeName a.name) : Template where
  replaceMode := false
  xmlRoot := []
  attributes := [a]
  sorted := List.pairwise_singleton _ _
  named := fun _ h => by rwa [List.mem_singleton.mp h]

/-- A template with a single attribute. -/
def singleTemplate (x v : Text) (hx : IsAttributeName x) : Template :=
  oneTemplate (.single x v) (by rwa [Attribute.name])

/-- A template with a vector of one value. -/
def vectorTemplate (x s v : Text) (hx : IsAttributeName x) : Template :=
  oneTemplate (.vector x ((∅ : AttributeMap).replace s v)) (by rwa [Attribute.name])

theorem get_oneTemplate {a : Attribute} (ha : IsAttributeName a.name) (x : Text) :
    (oneTemplate a ha).get x = if a.name = x then [a] else [] := by
  by_cases h : a.name = x
  · rw [if_pos h]
    exact List.filter_cons_of_pos (by simpa using h)
  · rw [if_neg h]
    exact List.filter_cons_of_neg (by simpa using h)

section

variable {x : Text} (hx : IsAttributeName x)

theorem singles_singleTemplate (v y : Text) :
    (singleTemplate x v hx).singles y = if x = y then [v] else [] := by
  rw [Template.singles, singleTemplate, get_oneTemplate, Attribute.name]
  split <;> rfl

theorem vectors_singleTemplate (v y : Text) : (singleTemplate x v hx).vectors y = [] := by
  rw [Template.vectors, singleTemplate, get_oneTemplate, Attribute.name]
  split <;> rfl

theorem getValue_singleTemplate (v y : Text) :
    (singleTemplate x v hx).getValue y = if x = y then some v else none := by
  rw [Template.getValue, singles_singleTemplate]
  split <;> rfl

theorem singles_vectorTemplate (s v y : Text) : (vectorTemplate x s v hx).singles y = [] := by
  rw [Template.singles, vectorTemplate, get_oneTemplate, Attribute.name]
  split <;> rfl

theorem vectors_vectorTemplate (s v y : Text) : (vectorTemplate x s v hx).vectors y =
    if x = y then [(∅ : AttributeMap).replace s v] else [] := by
  rw [Template.vectors, vectorTemplate, get_oneTemplate, Attribute.name]
  split <;> rfl

theorem lookup_oneValue (s v k : Text) :
    ((∅ : AttributeMap).replace s v).lookup k = if k = s then some v else none := by
  rw [AttributeMap.lookup_replace]
  rfl

theorem restrictedStrings_vectorTemplate {s : Text} (v : Text) {subs : List Text}
    (hnodup : subs.Nodup) (hs : s ∈ subs) :
    restrictedStrings x subs (vectorTemplate x s v hx) = [s ++ v] := by
  rw [restrictedStrings, vectors_vectorTemplate, if_pos rfl, List.flatMap_singleton]
  have hlabels : (subs.filterMap fun sub =>
      (((∅ : AttributeMap).replace s v).lookup sub).map (sub ++ ·)) =
      subs.filterMap fun sub => if sub = s then some (s ++ v) else none := by
    apply List.filterMap_congr
    intro sub _
    rw [lookup_oneValue]
    by_cases heq : sub = s
    · rw [if_pos heq, if_pos heq, heq, Option.map_some]
    · rw [if_neg heq, if_neg heq, Option.map_none]
  rw [hlabels, Labels.filterMap_single hnodup hs]
  rfl

theorem subValues_vectorTemplate (s v s' : Text) :
    (vectorTemplate x s v hx).subValues x s' = if s' = s then [v] else [] := by
  rw [Template.subValues, vectors_vectorTemplate, if_pos rfl, List.filterMap_cons, lookup_oneValue]
  split <;> rename_i h <;> split at h <;> simp_all

end

/-- The check of templates whose texts are the same and that have no single attributes at stake. -/
theorem checkRestricted_of_same {base t : Template} {ras : OrderedMap Text (List Text)}
    (h : ∀ e ∈ ras, (e.2 ≠ [] → restrictedStrings e.1 e.2 t = restrictedStrings e.1 e.2 base) ∧
      (e.2 = [] → t.getValue e.1 = none ∧ base.getValue e.1 = none)) :
    checkRestricted base false ras t = (none, t) := by
  induction ras with
  | nil => rfl
  | cons e ras ih =>
    have hrest := ih fun e' he' => h e' (List.mem_cons_of_mem _ he')
    obtain ⟨hstrings, hsingles⟩ := h e List.mem_cons_self
    rw [checkRestricted]
    by_cases hempty : e.2 = []
    · obtain ⟨ht, hb⟩ := hsingles hempty
      rw [hempty, List.isEmpty_nil, Bool.not_true, if_neg (by decide), ht]
      dsimp only
      rw [hb]
      exact hrest
    · rw [if_pos (by simpa using hempty)]
      dsimp only
      rw [if_neg (passes_iff.mpr (hstrings hempty))]
      exact hrest

/-- The check sees what single attributes hide, for the templates of a list. -/
def Decides (as : List Text) : Prop :=
  ∀ base t t' : Template, checkRestricted base false (parseAttributes as) t = (none, t') →
    (Unchanged as t' base ↔ SinglesAgree as base t)

/-- A name that starts another one hides the second in its value. -/
theorem Decides.prefixFree {as : List Text} (h : Decides as) {v s s' : Text} (hv : IsAttributeName v)
    (hs : RestrictedSub as v s) (hs' : RestrictedSub as v s') (hstart : s <+: s') : s = s' := by
  by_contra hne
  obtain ⟨x, rfl⟩ := hstart
  have hrun : checkRestricted (vectorTemplate v s x hv) false (parseAttributes as)
      (vectorTemplate v (s ++ x) [] hv) = (none, vectorTemplate v (s ++ x) [] hv) := by
    apply checkRestricted_of_same
    intro e he
    have hparsed := find_of_mem_parse he
    constructor
    · intro _
      by_cases hname : e.1 = v
      · rw [hname] at hparsed ⊢
        have hnodup : e.2.Nodup := hparsed.nodup
        have hmem : s ∈ e.2 := (hparsed.mem s).mpr hs
        have hmem' : s ++ x ∈ e.2 := (hparsed.mem (s ++ x)).mpr hs'
        rw [restrictedStrings_vectorTemplate hv x hnodup hmem,
          restrictedStrings_vectorTemplate hv [] hnodup hmem', List.append_nil]
      · rw [restrictedStrings, vectors_vectorTemplate, if_neg (Ne.symm hname), restrictedStrings,
          vectors_vectorTemplate, if_neg (Ne.symm hname)]
    · intro _
      unfold Template.getValue
      rw [singles_vectorTemplate, singles_vectorTemplate]
      exact ⟨rfl, rfl⟩
  have hagree : SinglesAgree as (vectorTemplate v s x hv) (vectorTemplate v (s ++ x) [] hv) := by
    intro y _
    unfold Template.getValue
    rw [singles_vectorTemplate, singles_vectorTemplate]
    simp
  have hperm := ((h _ _ _ hrun).mpr hagree).subs v s hs
  rw [subValues_vectorTemplate, subValues_vectorTemplate, if_neg hne, if_pos rfl] at hperm
  exact absurd hperm.length_eq (by simp)

/-- An attribute that is listed in both ways is not looked at as a single one. -/
theorem Decides.separate {as : List Text} (h : Decides as) {x s : Text} (hx : IsAttributeName x)
    (hsingle : RestrictedSingle as x) : ¬ RestrictedSub as x s := by
  intro hsub
  have hrun : checkRestricted emptyTemplate false (parseAttributes as) (singleTemplate x ['0'] hx) =
      (none, singleTemplate x ['0'] hx) := by
    apply checkRestricted_of_same
    intro e he
    have hparsed := find_of_mem_parse he
    constructor
    · intro _
      rw [restrictedStrings, vectors_singleTemplate]
      rfl
    · intro hempty
      refine ⟨?_, rfl⟩
      rw [getValue_singleTemplate, if_neg]
      rintro rfl
      have hmem := (hparsed.mem s).mpr hsub
      rw [hempty] at hmem
      exact absurd hmem List.not_mem_nil
  have hagree : SinglesAgree as emptyTemplate (singleTemplate x ['0'] hx) := by
    intro y _
    rw [singles_singleTemplate, getValue_singleTemplate]
    constructor
    · split <;> rfl
    · intro hvalue
      split at hvalue <;> exact absurd hvalue (by decide)
  have heq := ((h _ _ _ hrun).mpr hagree).singles x hsingle
  rw [singles_singleTemplate, if_pos rfl, singles_emptyTemplate] at heq
  exact absurd heq (List.cons_ne_nil _ _)

/-- What an added attribute under another name leaves in the template. -/
def OnlyAdded (x : Text) (t : Template) : Prop :=
  ∀ a ∈ t.attributes, a = .single (attributeName x) []

theorem OnlyAdded.get {x : Text} {t : Template} (h : OnlyAdded x t) (y : Text) :
    ∀ v ∈ t.singles y, v = [] ∧ y = attributeName x := by
  intro v hv
  obtain ⟨a, ha, hvalue⟩ := List.mem_filterMap.mp hv
  obtain ⟨ha, hname⟩ := List.mem_filter.mp ha
  rw [h a ha] at hvalue hname
  refine ⟨(Option.some.inj hvalue).symm, ?_⟩
  exact (of_decide_eq_true hname).symm

theorem OnlyAdded.vectors {x : Text} {t : Template} (h : OnlyAdded x t) (y : Text) :
    t.vectors y = [] := by
  rw [Template.vectors, List.filterMap_eq_nil_iff]
  intro a ha
  rw [h a (List.mem_filter.mp ha).1]
  rfl

theorem OnlyAdded.add {x : Text} {t : Template} (h : OnlyAdded x t) : OnlyAdded x (t.add x []) := by
  intro a ha
  rw [Template.add, Template.set] at ha
  rcases mem_insertAttribute.mp ha with rfl | ha
  · rw [newSingle]
  · split at ha
    · exact h a (List.mem_filter.mp ha).1
    · exact h a ha

/-- The check adds the attribute of the base under another name and passes. -/
theorem checkRestricted_onlyAdded {x : Text} (hx : IsAttributeName x)
    (ras : OrderedMap Text (List Text)) {t : Template} (h : OnlyAdded x t) :
    ∃ t', checkRestricted (singleTemplate x [] hx) false ras t = (none, t') ∧ OnlyAdded x t' := by
  induction ras generalizing t with
  | nil => exact ⟨t, rfl, h⟩
  | cons e ras ih =>
    rw [checkRestricted]
    by_cases hempty : e.2 = []
    · rw [hempty, List.isEmpty_nil, Bool.not_true, if_neg (by decide), getValue_singleTemplate]
      cases hvalue : t.getValue e.1 with
      | some ra =>
        have hra := (h.get e.1 ra (List.mem_of_mem_head? hvalue)).1
        have hsame : ¬ (if x = e.1 then some ([] : Text) else none).getD [] ≠ ra := by
          rw [hra]
          split <;> simp
        dsimp only
        rw [if_neg hsame]
        exact ih h
      | none =>
        dsimp only
        by_cases hxe : x = e.1
        · rw [if_pos hxe, ← hxe]
          exact ih h.add
        · rw [if_neg hxe]
          exact ih h
    · have hpass : restrictedStrings e.1 e.2 t =
          restrictedStrings e.1 e.2 (singleTemplate x [] hx) := by
        rw [restrictedStrings, restrictedStrings, vectors_singleTemplate, h.vectors]
      rw [if_pos (by simpa using hempty)]
      dsimp only
      rw [if_neg (passes_iff.mpr hpass)]
      exact ih h

/-- A restricted attribute of the base that the constructor renames is lost. -/
theorem Decides.kept {as : List Text} (h : Decides as) {x : Text} (hx : IsAttributeName x)
    (hsingle : RestrictedSingle as x) : attributeName x = x := by
  by_contra hne
  have hnone : OnlyAdded x emptyTemplate := fun a ha => absurd ha List.not_mem_nil
  obtain ⟨t', hrun, ht'⟩ := checkRestricted_onlyAdded hx (parseAttributes as) hnone
  have hagree : SinglesAgree as (singleTemplate x [] hx) emptyTemplate := by
    intro y _
    rw [singles_singleTemplate]
    constructor
    · split <;> rfl
    · intro hvalue
      rw [Template.getValue, singles_emptyTemplate] at hvalue
      exact absurd hvalue (by simp)
  have heq := ((h _ _ _ hrun).mpr hagree).singles x hsingle
  have hmem : ([] : Text) ∈ t'.singles x := by
    rw [heq, singles_singleTemplate, if_pos rfl]
    exact List.mem_cons_self
  exact hne (ht'.get x [] hmem).2.symm

/-- **The lists without ambiguity are the ones for which the check says whether the restricted
attributes are unchanged**, up to the single attributes it does not look at. -/
theorem unambiguous_iff (as : List Text) : Unambiguous as ↔
    ∀ base t t' : Template, checkRestricted base false (parseAttributes as) t = (none, t') →
      (Unchanged as t' base ↔ SinglesAgree as base t) := by
  constructor
  · intro h base t t' hrun
    exact h.not_changed_iff hrun
  · intro h
    have hdecides : Decides as := h
    refine ⟨?_, ?_, ?_⟩
    · intro v s s' hv hs hs' hstart
      exact hdecides.prefixFree hv hs hs' hstart
    · intro x s hx hsingle
      exact hdecides.separate hx hsingle
    · intro x hx hsingle
      exact hdecides.kept hx hsingle

/-! ### A hidden value -/

/-- The restricted names of the examples. -/
def filterText : Text := ['F', 'I', 'L', 'T', 'E', 'R']

def spoofingText : Text := ['_', 'I', 'P', '_', 'S', 'P', 'O', 'O', 'F', 'I', 'N', 'G']

def nicText : Text := ['N', 'I', 'C']

theorem isAttributeName_nicText : IsAttributeName nicText := ⟨nicText, by decide⟩

/-- `NIC/FILTER` and `NIC/FILTER_IP_SPOOFING`. -/
def nicRestricted : List Text :=
  [nicText ++ '/' :: filterText, nicText ++ '/' :: (filterText ++ spoofingText)]

/-- **A restricted value can be removed**: it is hidden behind a shorter name. -/
theorem not_unchanged_filter :
    ∃ as base t t', checkRestricted base false (parseAttributes as) t = (none, t') ∧
      ¬ Unchanged as t' base := by
  refine ⟨nicRestricted,
    vectorTemplate nicText (filterText ++ spoofingText) ['Y', 'E', 'S'] isAttributeName_nicText,
    vectorTemplate nicText filterText (spoofingText ++ ['Y', 'E', 'S']) isAttributeName_nicText,
    vectorTemplate nicText filterText (spoofingText ++ ['Y', 'E', 'S']) isAttributeName_nicText,
    ?_, ?_⟩
  · apply checkRestricted_of_same
    decide
  · intro h
    have hperm := h.subs nicText filterText ⟨by decide, List.mem_cons_self⟩
    rw [subValues_vectorTemplate, subValues_vectorTemplate, if_pos rfl, if_neg (by decide)] at hperm
    exact absurd hperm.length_eq (by decide)
