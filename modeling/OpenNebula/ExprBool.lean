/-
# The boolean expressions of the requirements (`src/parsers/expr_bool.y`)

The grammar declares `%left '!' '&' '|'`: the three operators share one level and group to the left.
So the parser reduces as soon as the right-hand side of a rule is on its stack, and the value of an
expression is computed from left to right.  `ParserState` is that parser, with the values of the
semantic actions on its stack; the states between a name and its operand stand for the rules of the
comparisons.

`Yields` is the grammar with the ambiguities resolved the same way: the operand of `!` and the right
operand of `&` and `|` is never an `&` or `|` without parentheses.  `parse_iff` says that the parser
accepts exactly these expressions, with these values.

`search` of an object and `fnmatch`, `atof` and the comparison of floating point numbers are taken as
they are.
-/
import OpenNebula.ExprLexer

open ExprLexer

/-- What the actions of the grammar use of the C library; `F` is the type `float`. -/
structure CLibrary (F : Type) where
  atof : Text → F
  eq : F → F → Bool
  lt : F → F → Bool
  /-- `fnmatch(pattern, text, 0) == 0` -/
  fnmatch : Text → Text → Bool

/-- An object as `ObjectXML::search` shows it: the first value of an attribute, if there is one, and
all its values, for each type of values.  The search of a number is given what its variable has before, which
`=` and `!=` set to the number that they compare with. -/
structure ObjectXML (F : Type) where
  searchInt : Option Text → Option ℤ → Option ℤ
  searchFloat : Option Text → Option F
  searchString : Option Text → Option Text
  searchInts : Option Text → List ℤ
  searchFloats : Option Text → List F
  searchStrings : Option Text → List Text

namespace ExprBool

variable {F : Type} (lib : CLibrary F) (o : ObjectXML F)

/-! ## Comparisons -/

/-- `=`, `!=`, `>`, `<` and `@>`. -/
inductive Comparison where
  | eq
  | ne
  | gt
  | lt
  | contains
  deriving DecidableEq, Repr

/-- The tokens of a comparison. -/
def Comparison.tokens : Comparison → List Token
  | .eq => [.sym '=']
  | .ne => [.sym '!', .sym '=']
  | .gt => [.sym '>']
  | .lt => [.sym '<']
  | .contains => [.sym '@', .sym '>']

def compareInt (name : Option Text) (n : ℤ) : Comparison → Bool
  | .eq => (o.searchInt name (some n)).any (fun v => v == n)
  | .ne => (o.searchInt name (some n)).any (fun v => v != n)
  | .gt => (o.searchInt name none).any (fun v => n < v)
  | .lt => (o.searchInt name none).any (fun v => v < n)
  | .contains => (o.searchInts name).any (fun v => n == v)

def compareFloat (name : Option Text) (x : F) : Comparison → Bool
  | .eq => (o.searchFloat name).any (fun v => lib.eq v x)
  | .ne => (o.searchFloat name).any (fun v => !lib.eq v x)
  | .gt => (o.searchFloat name).any (fun v => lib.lt x v)
  | .lt => (o.searchFloat name).any (fun v => lib.lt v x)
  | .contains => (o.searchFloats name).any (fun v => lib.eq x v)

/-- A comparison with a pattern; there is no rule for `>` and `<`, and `""` matches nothing. -/
def compareString (name pattern : Option Text) : Comparison → Option Bool
  | .eq => some (pattern.any (fun p => (o.searchString name).any (fun v => lib.fnmatch p v)))
  | .ne => some (pattern.any (fun p => (o.searchString name).any (fun v => !lib.fnmatch p v)))
  | .gt => none
  | .lt => none
  | .contains => some (pattern.any (fun p => (o.searchStrings name).any (fun v => lib.fnmatch p v)))

/-- The value of a comparison with a token, if there is a rule for it. -/
def compareWith (name : Option Text) (c : Comparison) : Token → Option Bool
  | .integer n => some (compareInt o name n c)
  | .float t => some (compareFloat lib o name (lib.atof t) c)
  | .string p => compareString lib o name p c
  | .sym _ => none

/-! ## The parser -/

/-- What waits on the stack for the next expression: the left operand of `&` or `|`, a `!` or an
open parenthesis. -/
inductive Frame where
  | and (v : Bool)
  | or (v : Bool)
  | not
  | paren
  deriving DecidableEq, Repr

/-- The states of the parser with its stack: before an expression, inside of a comparison, and behind
an expression that has been reduced. -/
inductive ParserState where
  | operand (s : List Frame)
  | name (n : Option Text) (s : List Frame)
  | bang (n : Option Text) (s : List Frame)
  | member (n : Option Text) (s : List Frame)
  | comparing (n : Option Text) (c : Comparison) (s : List Frame)
  | value (v : Bool) (s : List Frame)
  deriving DecidableEq, Repr

open ParserState

/-- The reductions by `expr '&' expr`, `expr '|' expr` and `'!' expr`. -/
def reduce (v : Bool) : List Frame → ParserState
  | .and l :: s => reduce (l && v) s
  | .or l :: s => reduce (l || v) s
  | .not :: s => reduce (!v) s
  | s => value v s

/-- The next token is shifted, and everything is reduced that can be. -/
def step : ParserState → Token → Option ParserState
  | operand s, .sym '(' => some (operand (.paren :: s))
  | operand s, .sym '!' => some (operand (.not :: s))
  | operand s, .string n => some (name n s)
  | name n s, .sym '=' => some (comparing n .eq s)
  | name n s, .sym '!' => some (bang n s)
  | name n s, .sym '>' => some (comparing n .gt s)
  | name n s, .sym '<' => some (comparing n .lt s)
  | name n s, .sym '@' => some (member n s)
  | bang n s, .sym '=' => some (comparing n .ne s)
  | member n s, .sym '>' => some (comparing n .contains s)
  | comparing n c s, t => (compareWith lib o n c t).map (fun v => reduce v s)
  | value v s, .sym '&' => some (operand (.and v :: s))
  | value v s, .sym '|' => some (operand (.or v :: s))
  | value v (.paren :: s), .sym ')' => some (reduce v s)
  | _, _ => none

/-- The tokens are read one after the other. -/
def run (st : ParserState) (ts : List Token) : Option ParserState := ts.foldlM (step lib o) st

/-- The end of the text: `stmt: expr`, or `stmt:` for a text without tokens, which is true. -/
def finish : ParserState → Option Bool
  | value v [] => some v
  | operand [] => some true
  | _ => none

/-- `expr_bool_parse`; `none` is a syntax error. -/
def parse (ts : List Token) : Option Bool := (run lib o (operand []) ts).bind finish

/-- `ObjectXML::eval_bool`. -/
def evalBool (text : Text) : Option Bool := parse lib o (lex text)

/-! ## Reading tokens -/

theorem run_cons (st : ParserState) (t : Token) (ts : List Token) :
    run lib o st (t :: ts) = (step lib o st t).bind (fun st' => run lib o st' ts) := rfl

theorem run_append (st : ParserState) (ts us : List Token) :
    run lib o st (ts ++ us) = (run lib o st ts).bind (fun st' => run lib o st' us) := by
  rw [run, List.foldlM_append]
  rfl

/-- A stack on which an expression waits for the next token. -/
def Settled : List Frame → Prop
  | [] => True
  | .paren :: _ => True
  | _ => False

theorem reduce_of_settled {s : List Frame} (h : Settled s) (v : Bool) : reduce v s = value v s := by
  unfold Settled at h
  split at h
  · rfl
  · rfl
  · exact absurd h id

/-! ## The grammar -/

/-- The operands of `!`, `&` and `|`, and the expressions that these make. -/
inductive Level where
  | operand
  | expr
  deriving DecidableEq, Repr

/-- The rules of `expr`, grouped to the left. -/
inductive Yields : Level → List Token → Bool → Prop
  | compare {n : Option Text} {c : Comparison} {t : Token} {v : Bool} :
      compareWith lib o n c t = some v → Yields .operand (.string n :: (c.tokens ++ [t])) v
  | not {ts : List Token} {v : Bool} :
      Yields .operand ts v → Yields .operand (.sym '!' :: ts) (!v)
  | paren {ts : List Token} {v : Bool} :
      Yields .expr ts v → Yields .operand (.sym '(' :: (ts ++ [.sym ')'])) v
  | operand {ts : List Token} {v : Bool} : Yields .operand ts v → Yields .expr ts v
  | and {ts us : List Token} {v w : Bool} :
      Yields .expr ts v → Yields .operand us w → Yields .expr (ts ++ .sym '&' :: us) (v && w)
  | or {ts us : List Token} {v w : Bool} :
      Yields .expr ts v → Yields .operand us w → Yields .expr (ts ++ .sym '|' :: us) (v || w)

/-- What the parser does with the tokens of an operand or of an expression. -/
def Reads : Level → List Token → Bool → Prop
  | .operand, ts, v => ∀ s, run lib o (operand s) ts = some (reduce v s)
  | .expr, ts, v => ∀ s, Settled s → run lib o (operand s) ts = some (value v s)

/-- **The parser reads the expressions of the grammar.** -/
theorem Yields.reads {l : Level} {ts : List Token} {v : Bool} (h : Yields lib o l ts v) :
    Reads lib o l ts v := by
  induction h with
  | @compare n c t v hv =>
    intro s
    cases c <;> simp [Comparison.tokens, step, hv, run]
  | @not ts v _ ih =>
    intro s
    rw [run_cons]
    exact ih (.not :: s)
  | @paren ts v _ ih =>
    intro s
    rw [run_cons]
    refine (run_append lib o _ ts _).trans ?_
    rw [ih (.paren :: s) trivial]
    rfl
  | @operand ts v _ ih =>
    intro s hs
    rw [ih s, reduce_of_settled hs]
  | @and ts us v w _ _ ih ih' =>
    intro s hs
    rw [run_append, ih s hs, Option.bind_some, run_cons]
    refine (ih' (.and v :: s)).trans ?_
    rw [reduce, reduce_of_settled hs]
  | @or ts us v w _ _ ih ih' =>
    intro s hs
    rw [run_append, ih s hs, Option.bind_some, run_cons]
    refine (ih' (.or v :: s)).trans ?_
    rw [reduce, reduce_of_settled hs]

/-- The tokens that have led to a stack. -/
inductive Below : List Frame → List Token → Prop
  | nil : Below [] []
  | paren {s : List Frame} {ts : List Token} : Below s ts → Below (.paren :: s) (ts ++ [.sym '('])
  | not {s : List Frame} {ts : List Token} : Below s ts → Below (.not :: s) (ts ++ [.sym '!'])
  | and {s : List Frame} {ts us : List Token} {v : Bool} : Settled s → Below s ts →
      Yields lib o .expr us v → Below (.and v :: s) (ts ++ (us ++ [.sym '&']))
  | or {s : List Frame} {ts us : List Token} {v : Bool} : Settled s → Below s ts →
      Yields lib o .expr us v → Below (.or v :: s) (ts ++ (us ++ [.sym '|']))

/-- The tokens that have led to a state. -/
def Explains : ParserState → List Token → Prop
  | operand s, ts => Below lib o s ts
  | name n s, ts => ∃ us, ts = us ++ [.string n] ∧ Below lib o s us
  | bang n s, ts => ∃ us, ts = us ++ [.string n, .sym '!'] ∧ Below lib o s us
  | member n s, ts => ∃ us, ts = us ++ [.string n, .sym '@'] ∧ Below lib o s us
  | comparing n c s, ts => ∃ us, ts = us ++ .string n :: c.tokens ∧ Below lib o s us
  | value v s, ts => Settled s ∧ ∃ us ws, ts = us ++ ws ∧ Below lib o s us ∧ Yields lib o .expr ws v

/-- The reductions follow the rules of the grammar. -/
theorem explains_reduce {s : List Frame} {us ws : List Token} (hs : Below lib o s us) {v : Bool}
    (h : Yields lib o .operand ws v) : Explains lib o (reduce v s) (us ++ ws) := by
  induction hs generalizing ws v with
  | nil => exact ⟨trivial, [], ws, rfl, .nil, .operand h⟩
  | @paren s ts hs _ => exact ⟨trivial, ts ++ [.sym '('], ws, rfl, .paren hs, .operand h⟩
  | @not s ts _ ih =>
    rw [List.append_assoc]
    exact ih (.not h)
  | @and s ts us l hset hs hl _ =>
    rw [reduce, reduce_of_settled hset]
    refine ⟨hset, ts, us ++ .sym '&' :: ws, ?_, hs, .and hl h⟩
    simp
  | @or s ts us l hset hs hl _ =>
    rw [reduce, reduce_of_settled hset]
    refine ⟨hset, ts, us ++ .sym '|' :: ws, ?_, hs, .or hl h⟩
    simp

theorem Explains.step {st st' : ParserState} {ts : List Token} {t : Token}
    (h : Explains lib o st ts) (hstep : ExprBool.step lib o st t = some st') :
    Explains lib o st' (ts ++ [t]) := by
  unfold ExprBool.step at hstep
  -- one case for each rule of `step`, in its order
  split at hstep
  · obtain rfl := Option.some.inj hstep
    exact Below.paren h
  · obtain rfl := Option.some.inj hstep
    exact Below.not h
  · obtain rfl := Option.some.inj hstep
    exact ⟨ts, rfl, h⟩
  case h_4 | h_5 | h_6 | h_7 | h_8 | h_9 | h_10 =>
    obtain rfl := Option.some.inj hstep
    obtain ⟨us, rfl, hs⟩ := h
    exact ⟨us, by simp [Comparison.tokens], hs⟩
  · obtain ⟨v, hv, rfl⟩ := Option.map_eq_some_iff.mp hstep
    obtain ⟨us, rfl, hs⟩ := h
    have hred := explains_reduce lib o hs (Yields.compare hv)
    rwa [← List.cons_append, ← List.append_assoc] at hred
  · obtain rfl := Option.some.inj hstep
    obtain ⟨hset, us, ws, rfl, hs, hws⟩ := h
    rw [List.append_assoc]
    exact Below.and hset hs hws
  · obtain rfl := Option.some.inj hstep
    obtain ⟨hset, us, ws, rfl, hs, hws⟩ := h
    rw [List.append_assoc]
    exact Below.or hset hs hws
  · obtain rfl := Option.some.inj hstep
    obtain ⟨-, us, ws, rfl, hs, hws⟩ := h
    cases hs with
    | paren hs =>
      have hred := explains_reduce lib o hs (Yields.paren hws)
      rw [← List.cons_append, ← List.append_assoc] at hred
      rwa [← List.append_cons]
  · exact absurd hstep (by simp)

theorem Explains.run {st' : ParserState} (us : List Token) : ∀ {st : ParserState} {ts : List Token},
    Explains lib o st ts → ExprBool.run lib o st us = some st' → Explains lib o st' (ts ++ us) := by
  induction us with
  | nil =>
    intro st ts h hrun
    rw [List.append_nil]
    exact (Option.some.inj hrun) ▸ h
  | cons t us ih =>
    intro st ts h hrun
    rw [run_cons, Option.bind_eq_some_iff] at hrun
    obtain ⟨st₁, hstep, hrun⟩ := hrun
    rw [List.append_cons]
    exact ih (h.step lib o hstep) hrun

/-- **The parser and the grammar** accept the same expressions, with the same values. -/
theorem parse_iff (ts : List Token) (v : Bool) :
    parse lib o ts = some v ↔ (ts = [] ∧ v = true) ∨ Yields lib o .expr ts v := by
  constructor
  · intro h
    obtain ⟨st, hrun, hfin⟩ := Option.bind_eq_some_iff.mp h
    have hst := Explains.run lib o ts (show Explains lib o (operand []) [] from Below.nil) hrun
    rw [List.nil_append] at hst
    unfold finish at hfin
    split at hfin
    · obtain rfl := Option.some.inj hfin
      obtain ⟨-, us, ws, rfl, hs, hws⟩ := hst
      cases hs
      exact Or.inr hws
    · obtain rfl := Option.some.inj hfin
      exact Or.inl ⟨by cases hst; rfl, rfl⟩
    · exact absurd hfin (by simp)
  · rintro (⟨rfl, rfl⟩ | h)
    · rfl
    · rw [parse, h.reads lib o [] trivial]
      rfl

/-- A text with tokens is accepted when the whole of it has been reduced to one expression. -/
theorem parse_eq_some {ts : List Token} (hne : ts ≠ []) (v : Bool) :
    parse lib o ts = some v ↔ run lib o (operand []) ts = some (value v []) := by
  constructor
  · intro h
    rcases (parse_iff lib o ts v).mp h with ⟨rfl, -⟩ | hts
    · exact absurd rfl hne
    · exact hts.reads lib o [] trivial
  · intro h
    rw [parse, h]
    rfl

end ExprBool
