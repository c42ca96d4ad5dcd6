/-
# Lists put together with a separator

A list is cut at the first occurrence of a separator, and what follows is cut again (`Splits`).  Pieces that
are put together with the separator are found again exactly when no occurrence starts inside of a piece:
the last characters of a piece and the first ones of the separator can be an occurrence too
(`splits_intercalate_iff`).  When no piece is the start of another one, and all of them are
found, they are found in their order (`Splits.perm`, `Splits.eq_of_perm`).
-/
import Mathlib

namespace Delimiter

variable {α : Type*} [DecidableEq α]

/-- What is before and behind the first occurrence of the separator. -/
def cut (sep : List α) : List α → Option (List α × List α)
  | [] => if sep <+: [] then some ([], []) else none
  | c :: t =>
    if sep <+: c :: t then some ([], (c :: t).drop sep.length)
    else (cut sep t).map fun r => (c :: r.1, r.2)

/-- No occurrence of the separator starts inside of the piece when the separator follows it. -/
def Clean (sep p : List α) : Prop := ∀ x y, x ++ y = p → y ≠ [] → ¬ sep <+: y ++ sep

/-- The pieces between the occurrences of the separator. -/
inductive Splits (sep : List α) : List α → List (List α) → Prop where
  | last {t : List α} (h : cut sep t = none) : Splits sep t [t]
  | cons {t a b : List α} {ps : List (List α)} (h : cut sep t = some (a, b))
      (hb : Splits sep b ps) : Splits sep t (a :: ps)

variable {sep t a b p : List α} {ps qs : List (List α)}

/-! ## One cut -/

omit [DecidableEq α] in
/-- An occurrence that starts inside of a piece ends before the end of the separator behind it. -/
theorem prefix_append_iff (y rest : List α) : sep <+: y ++ sep ++ rest ↔ sep <+: y ++ sep := by
  refine ⟨fun h => List.prefix_of_prefix_length_le h (List.prefix_append _ rest) ?_,
    fun h => h.trans (List.prefix_append _ rest)⟩
  rw [List.length_append]
  exact Nat.le_add_left _ _

omit [DecidableEq α] in
theorem Clean.of_cons {c : α} (h : Clean sep (c :: p)) : Clean sep p := by
  intro x y hxy hy
  exact h (c :: x) y (by rw [← hxy]; rfl) hy

/-- **One cut** is made at the first occurrence. -/
theorem cut_eq_some_iff : cut sep t = some (a, b) ↔ t = a ++ sep ++ b ∧ Clean sep a := by
  constructor
  · intro h
    induction t generalizing a with
    | nil =>
      unfold cut at h
      split_ifs at h with hsep
      obtain ⟨rfl, rfl⟩ := Prod.mk.inj (Option.some.inj h)
      rw [List.prefix_nil.mp hsep]
      refine ⟨rfl, fun x y hxy hy => ?_⟩
      exact absurd (List.append_eq_nil_iff.mp hxy).2 hy
    | cons c t ih =>
      unfold cut at h
      split_ifs at h with hsep
      · obtain ⟨rfl, rfl⟩ := Prod.mk.inj (Option.some.inj h)
        refine ⟨?_, fun x y hxy hy => absurd (List.append_eq_nil_iff.mp hxy).2 hy⟩
        obtain ⟨rest, hrest⟩ := hsep
        rw [← hrest, List.drop_left, List.nil_append]
      · obtain ⟨⟨a', b'⟩, hcut, heq⟩ := Option.map_eq_some_iff.mp h
        obtain ⟨rfl, rfl⟩ := Prod.mk.inj heq
        obtain ⟨rfl, hclean⟩ := ih hcut
        refine ⟨rfl, fun x y hxy hy hpre => ?_⟩
        cases x with
        | nil =>
          rw [List.nil_append] at hxy
          subst hxy
          exact hsep ((prefix_append_iff (c :: a') b').mpr hpre)
        | cons d x =>
          obtain ⟨-, hxy⟩ := List.cons.inj hxy
          exact hclean x y hxy hy hpre
  · rintro ⟨rfl, hclean⟩
    induction a with
    | nil =>
      have hpre : sep <+: sep ++ b := List.prefix_append sep b
      rw [List.nil_append]
      cases hsep : sep ++ b with
      | nil =>
        rw [hsep] at hpre
        rw [cut, if_pos hpre, (List.append_eq_nil_iff.mp hsep).2]
      | cons c t =>
        rw [hsep] at hpre
        rw [cut, if_pos hpre, ← hsep, List.drop_left]
    | cons c a ih =>
      have hno : ¬ sep <+: c :: (a ++ sep ++ b) := fun hpre =>
        hclean [] (c :: a) rfl (List.cons_ne_nil c a) ((prefix_append_iff (c :: a) b).mp hpre)
      rw [List.cons_append, List.cons_append, cut, if_neg hno, ih hclean.of_cons]
      rfl

/-- Nothing is cut from a list that does not contain the separator. -/
theorem cut_eq_none_iff : cut sep t = none ↔ ¬ sep <:+: t := by
  constructor
  · rintro h ⟨x, y, rfl⟩
    induction x with
    | nil =>
      have hpre : sep <+: sep ++ y := List.prefix_append sep y
      rw [List.nil_append] at h
      cases hsep : sep ++ y with
      | nil =>
        rw [hsep] at h hpre
        rw [cut, if_pos hpre] at h
        exact absurd h (Option.some_ne_none _)
      | cons c t =>
        rw [hsep] at h hpre
        rw [cut, if_pos hpre] at h
        exact absurd h (Option.some_ne_none _)
    | cons c x ih =>
      rw [List.cons_append, List.cons_append, cut] at h
      split_ifs at h
      exact ih (Option.map_eq_none_iff.mp h)
  · intro h
    cases hcut : cut sep t with
    | none => rfl
    | some r =>
      obtain ⟨heq, -⟩ := cut_eq_some_iff.mp hcut
      exact absurd ⟨r.1, r.2, heq.symm⟩ h

/-- The piece that is cut off is the shortest one. -/
theorem prefix_of_cut {rest : List α} (h : cut sep (p ++ sep ++ rest) = some (a, b)) : a <+: p := by
  obtain ⟨heq, hclean⟩ := cut_eq_some_iff.mp h
  rw [List.append_assoc, List.append_assoc] at heq
  rcases List.append_eq_append_iff.mp heq with ⟨y, hy, hrest⟩ | ⟨y, hy, -⟩
  · have hnil : y = [] := by
      by_contra hne
      refine hclean p y hy.symm hne ((prefix_append_iff y b).mp ?_)
      rw [List.append_assoc, ← hrest]
      exact List.prefix_append sep rest
    rw [hy, hnil, List.append_nil]
  · exact ⟨y, hy.symm⟩

/-! ## All cuts -/

/-- Without a separator there is no end. -/
theorem Splits.ne_nil (h : Splits sep t ps) : sep ≠ [] := by
  induction h with
  | last h =>
    rintro rfl
    exact cut_eq_none_iff.mp h ⟨[], _, rfl⟩
  | cons _ _ ih => exact ih

theorem Splits.inv (h : Splits sep t ps) :
    (ps = [t] ∧ cut sep t = none) ∨
      ∃ a b qs, ps = a :: qs ∧ cut sep t = some (a, b) ∧ Splits sep b qs := by
  cases h with
  | last h => exact Or.inl ⟨rfl, h⟩
  | cons h hb => exact Or.inr ⟨_, _, _, rfl, h, hb⟩

theorem Splits.pieces_ne_nil (h : Splits sep t ps) : ps ≠ [] := by
  cases h with
  | last _ => exact List.cons_ne_nil _ _
  | cons _ _ => exact List.cons_ne_nil _ _

/-- The pieces make up the list. -/
theorem Splits.eq_intercalate (h : Splits sep t ps) : t = sep.intercalate ps := by
  induction h with
  | last _ => rw [List.intercalate_singleton]
  | cons h hb ih =>
    obtain ⟨rfl, -⟩ := cut_eq_some_iff.mp h
    rw [List.intercalate_cons_of_ne_nil hb.pieces_ne_nil, ← ih, List.append_assoc]

/-- No occurrence of the separator starts inside of a piece, and none is in the last piece. -/
def AllClean (sep : List α) : List (List α) → Prop
  | [] => False
  | [p] => ¬ sep <:+: p
  | p :: q :: ps => Clean sep p ∧ AllClean sep (q :: ps)

omit [DecidableEq α] in
theorem clean_iff_tails : Clean sep p ↔ ∀ y ∈ p.tails, y ≠ [] → ¬ sep <+: y ++ sep := by
  refine ⟨fun h y hy => ?_, fun h x y hxy => h y ((List.mem_tails y p).mpr ⟨x, hxy⟩)⟩
  obtain ⟨x, hxy⟩ := (List.mem_tails y p).mp hy
  exact h x y hxy

instance : Decidable (Clean sep p) := decidable_of_iff' _ clean_iff_tails

instance decidableAllClean (sep : List α) : (ps : List (List α)) → Decidable (AllClean sep ps)
  | [] => isFalse id
  | [p] => inferInstanceAs (Decidable (¬ sep <:+: p))
  | p :: q :: ps =>
    have := decidableAllClean sep (q :: ps)
    inferInstanceAs (Decidable (Clean sep p ∧ AllClean sep (q :: ps)))

/-- **The pieces are found again** exactly when no occurrence of the separator starts inside of them. -/
theorem splits_intercalate_iff : Splits sep (sep.intercalate ps) ps ↔ AllClean sep ps := by
  induction ps with
  | nil => exact iff_of_false (fun h => h.pieces_ne_nil rfl) id
  | cons p ps ih =>
    cases ps with
    | nil =>
      rw [List.intercalate_singleton, AllClean, ← cut_eq_none_iff]
      constructor
      · intro h
        cases h with
        | last h => exact h
        | cons _ hb => exact absurd rfl hb.pieces_ne_nil
      · exact .last
    | cons q ps =>
      rw [AllClean, ← ih, List.intercalate_cons_cons]
      constructor
      · intro h
        rcases h.inv with ⟨hps, -⟩ | ⟨a, b, qs, hps, hcut, hb⟩
        · exact absurd (List.cons.inj hps).2 (List.cons_ne_nil q ps)
        · obtain ⟨rfl, rfl⟩ := List.cons.inj hps
          obtain ⟨heq, hclean⟩ := cut_eq_some_iff.mp hcut
          rw [List.append_cancel_left heq]
          exact ⟨hclean, hb⟩
      · rintro ⟨hclean, hb⟩
        exact .cons (cut_eq_some_iff.mpr ⟨rfl, hclean⟩) hb

/-- **The same pieces in any order**: when none of them is the start of another one, they are found in
their order. -/
theorem Splits.eq_of_perm (hpre : ∀ p ∈ ps, ∀ q ∈ ps, p <+: q → p = q)
    (h : Splits sep (sep.intercalate ps) qs) (hperm : qs.Perm ps) : qs = ps := by
  induction ps generalizing qs with
  | nil => exact hperm.eq_nil
  | cons p ps ih =>
    cases ps with
    | nil => exact List.perm_singleton.mp hperm
    | cons q ps =>
      rw [List.intercalate_cons_cons] at h
      rcases h.inv with ⟨rfl, -⟩ | ⟨a, b, rs, rfl, hcut, hb⟩
      · exact absurd hperm.length_eq (by simp)
      · have ha : a = p :=
          hpre a (hperm.subset List.mem_cons_self) p List.mem_cons_self (prefix_of_cut hcut)
        subst ha
        obtain ⟨heq, -⟩ := cut_eq_some_iff.mp hcut
        rw [← List.append_cancel_left heq] at hb
        rw [ih (fun x hx y hy => hpre x (List.mem_cons_of_mem _ hx) y (List.mem_cons_of_mem _ hy)) hb
          ((List.perm_cons a).mp hperm)]

omit [DecidableEq α] in
theorem length_intercalate (sep : List α) (hps : ps ≠ []) :
    (sep.intercalate ps).length + sep.length = ps.flatten.length + ps.length * sep.length := by
  induction ps with
  | nil => exact absurd rfl hps
  | cons p ps ih =>
    cases ps with
    | nil => simp
    | cons q ps =>
      have hrest := ih (List.cons_ne_nil q ps)
      rw [List.intercalate_cons_cons, List.flatten_cons, List.length_append, List.length_append,
        List.length_append, List.length_cons, Nat.succ_mul]
      omega

/-- Pieces that are all found again are the only ones. -/
theorem Splits.perm (hps : ps ≠ []) (hnodup : ps.Nodup) (h : Splits sep (sep.intercalate ps) qs)
    (hsub : ps ⊆ qs) : qs.Perm ps := by
  obtain ⟨l, hl, hsublist⟩ := List.subperm_of_subset hnodup hsub
  obtain ⟨rest, hrest⟩ := hsublist.exists_perm_append
  replace hrest := hrest.trans (hl.append_right rest)
  have hlen := length_intercalate sep hps
  have hlen' := length_intercalate sep h.pieces_ne_nil
  rw [← h.eq_intercalate, hrest.flatten.length_eq, hrest.length_eq, List.flatten_append,
    List.length_append, List.length_append, Nat.add_mul] at hlen'
  have hzero : rest.length * sep.length = 0 := by omega
  have hsep := List.length_pos_iff.mpr h.ne_nil
  have hnil : rest = [] := by
    rcases Nat.mul_eq_zero.mp hzero with hzero | hzero
    · exact List.length_eq_zero_iff.mp hzero
    · omega
  rwa [hnil, List.append_nil] at hrest

end Delimiter
