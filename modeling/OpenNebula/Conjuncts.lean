/-
# The conjuncts of a requirement

An expression asks for a comparison when it joins it by `&`, in parentheses or not, and no `|` stands
behind it on the way: the operators have one level and group to the left, so in `a | b & c` only `c` is
asked for.  `Conjuncts` follows the rules of the grammar, an expression has only one list of conjuncts
(`Conjuncts.unique`), and where it is true all of them are (`Yields.conjuncts`).
-/
import OpenNebula.ExprBool

open ExprLexer

namespace ExprBool

/-! ## The conjuncts of an expression -/

/-- The grammar has a rule for the comparison with this token. -/
def Comparison.takes : Comparison → Token → Bool
  | _, .sym _ => false
  | .gt, .string _ => false
  | .lt, .string _ => false
  | _, _ => true

/-- The comparisons that the tokens of an operand or of an expression ask for. -/
inductive Conjuncts : Level → List Token → List (List Token) → Prop
  | compare {n : Option Text} {c : Comparison} {t : Token} : c.takes t = true →
      Conjuncts .operand (.string n :: (c.tokens ++ [t])) [.string n :: (c.tokens ++ [t])]
  | not {ts : List Token} {cs : List (List Token)} :
      Conjuncts .operand ts cs → Conjuncts .operand (.sym '!' :: ts) []
  | paren {ts : List Token} {cs : List (List Token)} :
      Conjuncts .expr ts cs → Conjuncts .operand (.sym '(' :: (ts ++ [.sym ')'])) cs
  | operand {ts : List Token} {cs : List (List Token)} :
      Conjuncts .operand ts cs → Conjuncts .expr ts cs
  | and {ts us : List Token} {cs ds : List (List Token)} :
      Conjuncts .expr ts cs → Conjuncts .operand us ds →
        Conjuncts .expr (ts ++ .sym '&' :: us) (cs ++ ds)
  | or {ts us : List Token} {cs ds : List (List Token)} :
      Conjuncts .expr ts cs → Conjuncts .operand us ds → Conjuncts .expr (ts ++ .sym '|' :: us) []

variable {l : Level} {ts : List Token} {cs : List (List Token)}

/-- What is asked for stands in the tokens. -/
theorem Conjuncts.subtext (h : Conjuncts l ts cs) : ∀ c ∈ cs, c <:+: ts := by
  induction h with
  | compare =>
    intro c hc
    rw [List.mem_singleton.mp hc]
  | not => exact fun c hc => absurd hc List.not_mem_nil
  | paren _ ih =>
    intro c hc
    exact ((ih c hc).trans (List.prefix_append _ _).isInfix).trans (List.suffix_cons _ _).isInfix
  | operand _ ih => exact ih
  | and _ _ ih ih' =>
    intro c hc
    rcases List.mem_append.mp hc with hc | hc
    · exact (ih c hc).trans (List.prefix_append _ _).isInfix
    · exact ((ih' c hc).trans (List.suffix_cons _ _).isInfix).trans (List.suffix_append _ _).isInfix
  | or => exact fun c hc => absurd hc List.not_mem_nil

theorem takes_of_compareWith {F : Type} {lib : CLibrary F} {o : ObjectXML F} {n : Option Text}
    {c : Comparison} {t : Token} {v : Bool} (h : compareWith lib o n c t = some v) :
    c.takes t = true := by
  cases t with
  | sym x => exact absurd h (Option.some_ne_none v).symm
  | string p =>
    cases c with
    | gt => exact absurd h (Option.some_ne_none v).symm
    | lt => exact absurd h (Option.some_ne_none v).symm
    | eq => rfl
    | ne => rfl
    | contains => rfl
  | integer n => cases c <;> rfl
  | float x => cases c <;> rfl

/-- **An expression that is true** makes all its conjuncts true. -/
theorem Yields.conjuncts {F : Type} {lib : CLibrary F} {o : ObjectXML F} {v : Bool}
    (h : Yields lib o l ts v) :
    ∃ cs, Conjuncts l ts cs ∧ (v = true → ∀ c ∈ cs, Yields lib o .operand c true) := by
  induction h with
  | compare hv =>
    refine ⟨_, .compare (takes_of_compareWith hv), fun htrue c hc => ?_⟩
    rw [List.mem_singleton.mp hc, ← htrue]
    exact .compare hv
  | not _ ih =>
    obtain ⟨cs, hcs, -⟩ := ih
    exact ⟨[], .not hcs, fun _ c hc => absurd hc List.not_mem_nil⟩
  | paren _ ih =>
    obtain ⟨cs, hcs, hall⟩ := ih
    exact ⟨cs, .paren hcs, hall⟩
  | operand _ ih =>
    obtain ⟨cs, hcs, hall⟩ := ih
    exact ⟨cs, .operand hcs, hall⟩
  | and _ _ ih ih' =>
    obtain ⟨cs, hcs, hall⟩ := ih
    obtain ⟨ds, hds, hall'⟩ := ih'
    refine ⟨cs ++ ds, .and hcs hds, fun htrue c hc => ?_⟩
    obtain ⟨hv, hw⟩ := Bool.and_eq_true_iff.mp htrue
    rcases List.mem_append.mp hc with hc | hc
    · exact hall hv c hc
    · exact hall' hw c hc
  | or _ _ ih ih' =>
    obtain ⟨cs, hcs, -⟩ := ih
    obtain ⟨ds, hds, -⟩ := ih'
    exact ⟨[], .or hcs hds, fun _ c hc => absurd hc List.not_mem_nil⟩

/-! ## Only one list -/

/-- A reader of the tokens: the conjuncts so far, whether the next operand is asked for, and the same for the
open parentheses. -/
def scan : List (List (List Token) × Bool) → List (List Token) → Bool → List Token →
    List (List Token)
  | _, acc, _, [] => acc
  | stack, acc, keep, .sym '(' :: ts => scan ((acc, keep) :: stack) [] true ts
  | (acc', keep) :: stack, acc, _, .sym ')' :: ts =>
    scan stack (if keep then acc' ++ acc else acc') true ts
  | stack, acc, _, .sym '&' :: ts => scan stack acc true ts
  | stack, _, _, .sym '|' :: ts => scan stack [] false ts
  | stack, acc, _, .sym '!' :: ts => scan stack acc false ts
  | stack, acc, keep, .string n :: .sym '!' :: .sym '=' :: t :: ts =>
    scan stack (if keep then acc ++ [[.string n, .sym '!', .sym '=', t]] else acc) true ts
  | stack, acc, keep, .string n :: .sym '@' :: .sym '>' :: t :: ts =>
    scan stack (if keep then acc ++ [[.string n, .sym '@', .sym '>', t]] else acc) true ts
  | stack, acc, keep, .string n :: .sym x :: t :: ts =>
    scan stack (if keep then acc ++ [[.string n, .sym x, t]] else acc) true ts
  | _, acc, _, _ :: _ => acc

/-- What the reader does with the tokens of an operand or of an expression. -/
def Scans : Level → List Token → List (List Token) → Prop
  | .operand, ts, cs => ∀ stack acc keep us,
    scan stack acc keep (ts ++ us) = scan stack (if keep then acc ++ cs else acc) true us
  | .expr, ts, cs => ∀ stack us, scan stack [] true (ts ++ us) = scan stack cs true us

theorem Conjuncts.scans (h : Conjuncts l ts cs) : Scans l ts cs := by
  induction h with
  | @compare n c t ht =>
    intro stack acc keep us
    cases c with
    | eq => rfl
    | ne => rfl
    | gt => rfl
    | lt => rfl
    | contains => rfl
  | @not ts cs _ ih =>
    intro stack acc keep us
    have hscan := ih stack acc false us
    rw [if_neg Bool.false_ne_true] at hscan
    rw [List.append_nil, ite_self]
    exact hscan
  | @paren ts cs _ ih =>
    intro stack acc keep us
    have hscan := ih ((acc, keep) :: stack) (.sym ')' :: us)
    rw [List.cons_append, List.append_assoc]
    exact hscan
  | operand _ ih => exact fun stack us => ih stack [] true us
  | @and ts us cs ds _ _ ih ih' =>
    intro stack vs
    have hscan := ih' stack cs true vs
    rw [if_pos rfl] at hscan
    rw [List.append_assoc, ih]
    exact hscan
  | @or ts us cs ds _ _ ih ih' =>
    intro stack vs
    have hscan := ih' stack [] false vs
    rw [if_neg Bool.false_ne_true] at hscan
    rw [List.append_assoc, ih]
    exact hscan

/-- **An expression has one list of conjuncts.** -/
theorem Conjuncts.unique {ds : List (List Token)} (h : Conjuncts .expr ts cs)
    (h' : Conjuncts .expr ts ds) : cs = ds := by
  have hscan := h.scans [] []
  rw [h'.scans [] []] at hscan
  exact hscan.symm

/-! ## The characters of a token -/

theorem lexeme_suffix (c : Char) (cs : Text) : (lexeme c cs).2 <:+ cs := by
  unfold lexeme
  split
  · split
    · exact (List.tail_suffix _).trans (List.dropWhile_suffix _)
    · exact List.suffix_rfl
  · split
    · exact List.dropWhile_suffix _
    · split
      · unfold number
        dsimp only
        split
        · rename_i f rest heq
          obtain ⟨d, ds, ht, -, rfl⟩ := fraction_some heq
          refine (List.dropWhile_suffix _).trans (.trans ?_ (List.dropWhile_suffix Char.isDigit))
          rw [ht]
          exact (List.suffix_cons _ _).trans (List.suffix_cons _ _)
        · exact List.dropWhile_suffix _
      · split <;> exact List.suffix_rfl

theorem mem_of_lexeme {c : Char} {cs s : Text} (h : (lexeme c cs).1 = some (.string (some s))) :
    ∀ x ∈ s, x ∈ c :: cs := by
  intro x hx
  unfold lexeme at h
  split_ifs at h with _ _ halpha
  · dsimp only at h
    split_ifs at h with hempty
    · exact absurd h (by simp)
    · obtain rfl : cs.takeWhile isBody = s := by simpa only [Option.some.injEq, Token.string.injEq] using h
      exact List.mem_cons_of_mem c ((List.takeWhile_prefix _).subset hx)
  · obtain rfl : c :: cs.takeWhile isWord = s := by
      simpa only [Option.some.injEq, Token.string.injEq] using h
    rcases List.mem_cons.mp hx with rfl | hx
    · exact List.mem_cons_self
    · exact List.mem_cons_of_mem c ((List.takeWhile_prefix _).subset hx)
  · unfold number at h
    dsimp only at h
    split at h
    · exact absurd h (by simp)
    · exact absurd h (by simp)
  · exact absurd h (by simp)

/-- The characters of a name or of a text come from the text that is scanned. -/
theorem mem_of_string_mem_lex {t s : Text} (h : Token.string (some s) ∈ lex t) : ∀ x ∈ s, x ∈ t := by
  induction hn : t.length using Nat.strong_induction_on generalizing t with
  | _ n ih =>
    cases t with
    | nil => exact absurd h List.not_mem_nil
    | cons c cs =>
      have hsuffix := lexeme_suffix c cs
      rw [lex_cons, List.mem_append, Option.mem_toList] at h
      rcases h with h | h
      · exact mem_of_lexeme h
      · intro x hx
        have hlt : (lexeme c cs).2.length < n := by
          rw [← hn]
          exact Nat.lt_succ_of_le hsuffix.length_le
        exact List.mem_cons_of_mem c (hsuffix.subset (ih _ hlt h rfl x hx))

end ExprBool
