/-
# Automatic and user requirements (`src/schedm/SchedulerManagerDriver.cc`)

`build_requirements` joins the automatic requirements of a VM and those of its user by pasting the
two texts, `ar & ( r )`, and the result is scanned and parsed anew for every host, datastore and
network.  All the operators have one level and group to the left, so that the paste is the
conjunction of the two expressions whenever `r` is an expression of its own (`run_conjunction`).

The text `r` may also close the parenthesis that is opened for it.  What it says behind that is read
on the level of `ar`, and an alternative there stands against the automatic requirements.
`guarded_iff_of_eval` says exactly when a user gets around them: `ar` is false, and the text behind the first
`|` outside of all parentheses is true.
-/
import OpenNebula.ExprBool

open ExprLexer ExprBool ExprBool.ParserState

namespace SchedulerManagerDriver

variable {F : Type} (lib : CLibrary F) (o : ObjectXML F)

/-! ## The requirements of a VM -/

/-- `build_requirements`. -/
def buildRequirements (ar r : Text) : Text :=
  if r ≠ [] then
    if ar ≠ [] then ar ++ [' ', '&', ' ', '(', ' '] ++ r ++ [' ', ')'] else r
  else if ar ≠ [] then ar else r

/-- The result of `authorize`. -/
inductive Authorization where
  | denied
  | granted
  | noUser
  deriving DecidableEq, Repr

/-- A host as `match_hosts` looks at it: `current` is set for the host of a VM that is to be
rescheduled. -/
structure Candidate (F : Type) where
  id : ℕ
  object : ObjectXML F
  current : Bool
  auth : Authorization

/-- The errors of `match_hosts`. -/
inductive MatchError where
  | noUser
  | requirements (text : Text)
  | notAuthorized
  | noMatch
  deriving DecidableEq, Repr

/-- The loop of `match_hosts`: the hosts matched so far, and the error if there is one. -/
def matchLoop (req : Text) : List (Candidate F) → ℕ → List ℕ → List ℕ × Option MatchError
  | [], nAuth, matched =>
    (matched, if nAuth = 0 then some .notAuthorized
      else if matched.length = 0 then some .noMatch else none)
  | h :: hs, nAuth, matched =>
    if h.current then matchLoop req hs nAuth matched
    else match h.auth with
      | .denied => matchLoop req hs nAuth matched
      | .noUser => (matched, some .noUser)
      | .granted =>
        if req.isEmpty then matchLoop req hs (nAuth + 1) (matched ++ [h.id])
        else match evalBool lib h.object req with
          | none => (matched, some (.requirements req))
          | some true => matchLoop req hs (nAuth + 1) (matched ++ [h.id])
          | some false => matchLoop req hs (nAuth + 1) matched

/-- `match_hosts`. -/
def matchHosts (ar r : Text) (hosts : List (Candidate F)) : List ℕ × Option MatchError :=
  matchLoop lib (buildRequirements ar r) hosts 0 []

/-! ## The tokens of the paste -/

theorem lex_buildRequirements {ar r : Text} (har : ar ≠ []) (hr : r ≠ []) (hq : QuotesApart ar r) :
    lex (buildRequirements ar r) = lex ar ++ .sym '&' :: .sym '(' :: (lex r ++ [.sym ')']) := by
  have hq' : QuotesApart ar ('&' :: ' ' :: '(' :: ' ' :: (r ++ ' ' :: [')'])) := by
    refine hq.imp id ?_
    intro hr
    simp [hr]
  have hend : QuotesApart r [')'] := Or.inr (by decide)
  rw [buildRequirements, if_pos hr, if_pos har,
    show ar ++ [' ', '&', ' ', '(', ' '] ++ r ++ [' ', ')'] =
      ar ++ ' ' :: '&' :: ' ' :: '(' :: ' ' :: (r ++ ' ' :: [')']) by simp,
    lex_append hq']
  congr 1
  have hamp : ∀ t, lex ('&' :: t) = .sym '&' :: lex t := fun t => lex_cons '&' t
  have hparen : ∀ t, lex ('(' :: t) = .sym '(' :: lex t := fun t => lex_cons '(' t
  rw [hamp, lex_blank, hparen, lex_blank, lex_append hend]
  rfl

/-! ## Stacks on stacks -/

/-- The state on top of a stack `b`: an expression that has nothing else to wait for is reduced with
what is on `b`. -/
def onto (b : List Frame) : ParserState → ParserState
  | operand s => operand (s ++ b)
  | name n s => name n (s ++ b)
  | bang n s => bang n (s ++ b)
  | member n s => member n (s ++ b)
  | comparing n c s => comparing n c (s ++ b)
  | value v [] => reduce v b
  | value v (f :: s) => value v (f :: (s ++ b))

/-- Outside of all parentheses and behind an expression. -/
def outside : ParserState → Bool
  | value _ [] => true
  | _ => false

section Onto

variable (b : List Frame)

@[simp]
theorem onto_operand (s : List Frame) : onto b (operand s) = operand (s ++ b) := rfl

@[simp]
theorem onto_name (n : Option Text) (s : List Frame) : onto b (name n s) = name n (s ++ b) := rfl

@[simp]
theorem onto_bang (n : Option Text) (s : List Frame) : onto b (bang n s) = bang n (s ++ b) := rfl

@[simp]
theorem onto_member (n : Option Text) (s : List Frame) :
    onto b (member n s) = member n (s ++ b) := rfl

@[simp]
theorem onto_comparing (n : Option Text) (c : Comparison) (s : List Frame) :
    onto b (comparing n c s) = comparing n c (s ++ b) := rfl

@[simp]
theorem onto_outside (v : Bool) : onto b (value v []) = reduce v b := rfl

@[simp]
theorem onto_inside (v : Bool) (f : Frame) (s : List Frame) :
    onto b (value v (f :: s)) = value v (f :: (s ++ b)) := rfl

@[simp]
theorem onto_reduce (v : Bool) (s : List Frame) : onto b (reduce v s) = reduce v (s ++ b) := by
  induction s generalizing v with
  | nil => rfl
  | cons f s ih =>
    cases f with
    | and l => exact ih (l && v)
    | or l => exact ih (l || v)
    | not => exact ih (!v)
    | paren => rfl

end Onto

/-- What is below the stack does not matter to the next step, as long as the state is not outside of
all parentheses. -/
theorem step_onto (b : List Frame) {st : ParserState} (hst : outside st = false) (t : Token) :
    step lib o (onto b st) t = (step lib o st t).map (onto b) := by
  cases st with
  | operand s =>
    rw [onto_operand]
    unfold step
    split <;> simp_all
  | name n s =>
    rw [onto_name]
    unfold step
    split <;> simp_all
  | bang n s =>
    rw [onto_bang]
    unfold step
    split <;> simp_all
  | member n s =>
    rw [onto_member]
    unfold step
    split <;> simp_all
  | comparing n c s =>
    show (compareWith lib o n c t).map _ = ((compareWith lib o n c t).map _).map _
    rw [Option.map_map]
    congr 1
    funext v
    exact (onto_reduce b v s).symm
  | value v s =>
    cases s with
    | nil => exact absurd hst (by simp [outside])
    | cons f s =>
      rw [onto_inside]
      unfold step
      split <;> simp_all

theorem eq_value_of_outside {st : ParserState} (h : outside st = true) : ∃ v, st = value v [] := by
  unfold outside at h
  split at h
  · exact ⟨_, rfl⟩
  · exact absurd h (by simp)

/-- Outside of all parentheses only an operator can follow. -/
theorem step_outside (v : Bool) (t : Token) :
    (t = .sym '&' ∧ step lib o (value v []) t = some (operand [.and v])) ∨
      (t = .sym '|' ∧ step lib o (value v []) t = some (operand [.or v])) ∨
      (t ≠ .sym '&' ∧ t ≠ .sym '|' ∧ step lib o (value v []) t = none) := by
  by_cases hand : t = .sym '&'
  · exact Or.inl ⟨hand, by rw [hand]; rfl⟩
  · by_cases hor : t = .sym '|'
    · exact Or.inr (Or.inl ⟨hor, by rw [hor]; rfl⟩)
    · refine Or.inr (Or.inr ⟨hand, hor, ?_⟩)
      unfold step
      split <;> simp_all

/-! ## An expression in parentheses -/

/-- Behind an open parenthesis the parser reads an expression as it reads it alone. -/
theorem run_onto_paren (b : List Frame) (ts : List Token) : ∀ {st st' : ParserState},
    run lib o st ts = some st' →
      run lib o (onto (.paren :: b) st) ts = some (onto (.paren :: b) st') := by
  induction ts with
  | nil =>
    intro st st' h
    rw [← Option.some.inj h]
    rfl
  | cons t ts ih =>
    intro st st' h
    rw [run_cons, Option.bind_eq_some_iff] at h
    obtain ⟨st₁, hstep, hrun⟩ := h
    have hstep' : step lib o (onto (.paren :: b) st) t = some (onto (.paren :: b) st₁) := by
      cases hst : outside st with
      | false => rw [step_onto lib o _ hst, hstep, Option.map_some]
      | true =>
        obtain ⟨v, rfl⟩ := eq_value_of_outside hst
        rcases step_outside lib o v t with ⟨rfl, heq⟩ | ⟨rfl, heq⟩ | ⟨-, -, heq⟩
        · rw [heq, Option.some.injEq] at hstep
          rw [← hstep]
          rfl
        · rw [heq, Option.some.injEq] at hstep
          rw [← hstep]
          rfl
        · rw [heq] at hstep
          exact absurd hstep (by simp)
    rw [run_cons, hstep', Option.bind_some]
    exact ih hrun

/-- **The conjunction.**  An expression `r` behind `ar & (` is read as a whole. -/
theorem run_conjunction (a w : Bool) {ts : List Token}
    (h : run lib o (operand []) ts = some (value w [])) :
    run lib o (operand [.paren, .and a]) (ts ++ [.sym ')']) = some (value (a && w) []) := by
  rw [run_append, show operand [.paren, .and a] = onto [.paren, .and a] (operand []) from rfl,
    run_onto_paren lib o [.and a] ts h]
  rfl

/-! ## Behind the parenthesis -/

/-- The tokens behind the first `|` that stands outside of all parentheses. -/
def alternative : List Token → ParserState → Option (List Token)
  | [], _ => none
  | t :: ts, st =>
    if outside st = true ∧ t = .sym '|' then some ts
    else (step lib o st t).bind (alternative ts)

/-- The user's text closes the parenthesis that it is put in, and the text behind the first `|` that
follows outside of all parentheses is true. -/
def Escapes (r : Text) : Prop :=
  ∃ ts, alternative lib o (lex r) (operand [.paren]) = some ts ∧
    parse lib o (ts ++ [.sym ')']) = some true

theorem onto_and_outside {l v : Bool} {st : ParserState} (h : onto [.and l] st = value v []) :
    ∃ w, st = value w [] ∧ v = (l && w) := by
  cases st with
  | value w s =>
    cases s with
    | nil =>
      rw [onto_outside] at h
      simp only [reduce, ParserState.value.injEq, and_true] at h
      exact ⟨w, rfl, h.symm⟩
    | cons f s => exact absurd h (by simp)
  | operand s => exact absurd h (by simp)
  | name n s => exact absurd h (by simp)
  | bang n s => exact absurd h (by simp)
  | member n s => exact absurd h (by simp)
  | comparing n c s => exact absurd h (by simp)

/-- The parser in the paste, when the automatic requirements are false: it stands where it stands
without them, above a conjunction that is false. -/
inductive Low : ParserState → ParserState → Prop
  | under (st : ParserState) : Low st (onto [.and false] st)
  | beside (st : ParserState) (l : Bool) : Low (onto [.and l] st) (onto [.and false] st)

/-- An expression outside of all parentheses is false. -/
theorem Low.eq_false {st : ParserState} {v : Bool} (h : Low st (value v [])) : v = false := by
  generalize hst' : value v [] = st' at h
  cases h with
  | under =>
    obtain ⟨w, -, hv⟩ := onto_and_outside hst'.symm
    simpa using hv
  | beside st₁ l =>
    obtain ⟨w, -, hv⟩ := onto_and_outside hst'.symm
    simpa using hv

theorem Low.of_outside {st' : ParserState} {v : Bool} (h : Low (value v []) st') :
    st' = value false [] := by
  generalize hst : value v [] = st at h
  cases h with
  | under =>
    rw [← hst]
    rfl
  | beside st₁ l =>
    obtain ⟨w, rfl, -⟩ := onto_and_outside hst.symm
    rfl

/-- **One step** below a conjunction that is false, except over a `|`. -/
theorem Low.step {st st' : ParserState} (h : Low st st') {t : Token}
    (hnot : ¬ (outside st = true ∧ t = .sym '|')) :
    Option.Rel Low (ExprBool.step lib o st t) (ExprBool.step lib o st' t) := by
  cases hst : outside st with
  | true =>
    obtain ⟨v, rfl⟩ := eq_value_of_outside hst
    rw [h.of_outside]
    rcases step_outside lib o v t with ⟨rfl, heq⟩ | ⟨rfl, heq⟩ | ⟨hand, hor, heq⟩
    · rw [heq]
      exact Option.Rel.some (Low.beside (operand []) v)
    · exact absurd ⟨hst, rfl⟩ hnot
    · rcases step_outside lib o false t with ⟨h', -⟩ | ⟨h', -⟩ | ⟨-, -, heq'⟩
      · exact absurd h' hand
      · exact absurd h' hor
      · rw [heq, heq']
        exact Option.Rel.none
  | false =>
    cases h with
    | under =>
      rw [step_onto lib o _ hst]
      cases ExprBool.step lib o st t with
      | none => exact Option.Rel.none
      | some st₁ => exact Option.Rel.some (Low.under st₁)
    | beside st₁ l =>
      have hst₁ : outside st₁ = false := by
        by_contra hout
        obtain ⟨v, rfl⟩ := eq_value_of_outside (by simpa using hout)
        exact absurd hst (by simp [reduce, outside])
      rw [step_onto lib o _ hst₁, step_onto lib o _ hst₁]
      cases ExprBool.step lib o st₁ t with
      | none => exact Option.Rel.none
      | some st₂ => exact Option.Rel.some (Low.beside st₂ l)

/-- Without an alternative the whole is false. -/
theorem Low.run_false (ts : List Token) : ∀ {st st' : ParserState}, Low st st' →
    alternative lib o ts st = none → ∀ {v : Bool},
      run lib o st' (ts ++ [.sym ')']) = some (value v []) → v = false := by
  induction ts with
  | nil =>
    intro st st' h _ v hrun
    have hstep := h.step lib o (t := .sym ')') (by simp)
    rw [List.nil_append, run_cons, Option.bind_eq_some_iff] at hrun
    obtain ⟨st₁', hst', hend⟩ := hrun
    rw [hst'] at hstep
    obtain rfl : st₁' = value v [] := Option.some.inj hend
    generalize ExprBool.step lib o st (.sym ')') = o₁ at hstep
    cases hstep with
    | some hlow => exact hlow.eq_false
  | cons t ts ih =>
    intro st st' h halt v hrun
    rw [alternative] at halt
    split at halt
    · exact absurd halt (by simp)
    · rename_i hnot
      have hstep := h.step lib o hnot
      rw [List.cons_append, run_cons, Option.bind_eq_some_iff] at hrun
      obtain ⟨st₁', hst', hrun⟩ := hrun
      rw [hst'] at hstep
      generalize ExprBool.step lib o st t = o₁ at hstep halt
      cases hstep with
      | some hlow => exact ih hlow halt hrun

/-- With an alternative the whole is what the alternative is. -/
theorem Low.run_alternative (ts : List Token) : ∀ {st st' : ParserState} {us : List Token}, Low st st' →
    alternative lib o ts st = some us →
      run lib o st' (ts ++ [.sym ')']) = run lib o (operand [.or false]) (us ++ [.sym ')']) := by
  induction ts with
  | nil =>
    intro st st' us _ halt
    exact absurd halt (by simp [alternative])
  | cons t ts ih =>
    intro st st' us h halt
    rw [alternative] at halt
    split at halt
    · rename_i hout
      obtain ⟨hst, rfl⟩ := hout
      obtain ⟨v, rfl⟩ := eq_value_of_outside hst
      rw [h.of_outside, Option.some.inj halt]
      rfl
    · rename_i hnot
      have hstep := h.step lib o hnot
      obtain ⟨st₁, hst₁, halt⟩ := Option.bind_eq_some_iff.mp halt
      rw [hst₁] at hstep
      rw [List.cons_append, run_cons]
      generalize ExprBool.step lib o st' t = o₁ at hstep ⊢
      cases hstep with
      | some hlow => exact ih hlow halt

/-- An alternative to something false is read as it is read alone. -/
theorem run_or_false (ts : List Token) : ∀ (st : ParserState) (v : Bool),
    run lib o (onto [.or false] st) ts = some (value v []) ↔ run lib o st ts = some (value v []) := by
  induction ts with
  | nil =>
    intro st v
    cases st with
    | value w s =>
      cases s with
      | nil => exact Iff.rfl
      | cons f s => simp [run]
    | operand s => simp [run]
    | name n s => simp [run]
    | bang n s => simp [run]
    | member n s => simp [run]
    | comparing n c s => simp [run]
  | cons t ts ih =>
    intro st v
    cases hst : outside st with
    | true =>
      obtain ⟨w, rfl⟩ := eq_value_of_outside hst
      exact Iff.rfl
    | false =>
      rw [run_cons, run_cons, step_onto lib o _ hst]
      cases ExprBool.step lib o st t with
      | none => simp
      | some st₁ => exact ih st₁ v

/-! ## The paste as a whole -/

/-- What the paste of `build_requirements` is for, on one object: if the paste is accepted, it is true
only if the automatic requirements are, and if the user's text is an expression, the paste is the
conjunction. -/
def Guarded (ar r : Text) : Prop :=
  ∀ v, evalBool lib o (buildRequirements ar r) = some v →
    (v = true → evalBool lib o ar = some true) ∧
      ∀ w, evalBool lib o r = some w → ∃ u, evalBool lib o ar = some u ∧ v = (u && w)

section Paste

variable {lib o} {ar r : Text} (har : ar ≠ []) (hr : r ≠ []) (hq : QuotesApart ar r)

include har hr hq

/-- The automatic requirements have been read, and so has the parenthesis. -/
theorem evalBool_paste {a v : Bool} (ha : evalBool lib o ar = some a) :
    evalBool lib o (buildRequirements ar r) = some v ↔
      lex ar ≠ [] ∧
        run lib o (operand [.paren, .and a]) (lex r ++ [.sym ')']) = some (value v []) := by
  rw [evalBool, lex_buildRequirements har hr hq, parse_eq_some lib o (by simp), run_append]
  by_cases hne : lex ar = []
  · rw [hne]
    simp [run, step]
  · rw [(parse_eq_some lib o hne a).mp ha]
    exact ⟨fun h => ⟨hne, h⟩, fun h => h.2⟩

theorem paste_eq_and {a v w : Bool} (ha : evalBool lib o ar = some a) (hw : evalBool lib o r = some w)
    (h : evalBool lib o (buildRequirements ar r) = some v) : v = (a && w) := by
  obtain ⟨-, hrun⟩ := (evalBool_paste har hr hq ha).mp h
  by_cases hne : lex r = []
  · rw [hne] at hrun
    exact absurd hrun (by simp [run, step])
  · rw [run_conjunction lib o a w ((parse_eq_some lib o hne w).mp hw)] at hrun
    simpa using hrun.symm

theorem paste_eq_some {a w : Bool} (ha : evalBool lib o ar = some a) (hw : evalBool lib o r = some w)
    (hne : lex ar ≠ []) (hne' : lex r ≠ []) :
    evalBool lib o (buildRequirements ar r) = some (a && w) :=
  (evalBool_paste har hr hq ha).mpr
    ⟨hne, run_conjunction lib o a w ((parse_eq_some lib o hne' w).mp hw)⟩

/-- The paste is true over false automatic requirements exactly if the user's text escapes. -/
theorem paste_true_iff (ha : evalBool lib o ar = some false) :
    evalBool lib o (buildRequirements ar r) = some true ↔ Escapes lib o r := by
  have hne : lex ar ≠ [] := by
    intro hnil
    rw [evalBool, hnil] at ha
    exact absurd ha (by simp [parse, run, finish])
  have hlow : Low (operand [.paren]) (operand [.paren, .and false]) := Low.under (operand [.paren])
  rw [evalBool_paste har hr hq ha]
  constructor
  · rintro ⟨-, hrun⟩
    cases halt : alternative lib o (lex r) (operand [.paren]) with
    | none => exact absurd (hlow.run_false lib o _ halt hrun) (by simp)
    | some ts =>
      rw [hlow.run_alternative lib o _ halt] at hrun
      refine ⟨ts, halt, ?_⟩
      rw [parse_eq_some lib o (by simp)]
      exact (run_or_false lib o _ (operand []) true).mp hrun
  · rintro ⟨ts, halt, htrue⟩
    rw [parse_eq_some lib o (by simp)] at htrue
    refine ⟨hne, ?_⟩
    rw [hlow.run_alternative lib o _ halt]
    exact (run_or_false lib o _ (operand []) true).mpr htrue

end Paste

/-- On an object where the user's text does not escape, the paste is guarded; and only there, if the
automatic requirements are false. -/
theorem guarded_iff_of_eval {ar r : Text} {a : Bool} (ha : evalBool lib o ar = some a)
    (hq : QuotesApart ar r) :
    Guarded lib o ar r ↔ evalBool lib o ar = some true ∨ ¬ Escapes lib o r := by
  have hempty : evalBool lib o [] = some true := rfl
  by_cases hr : r = []
  · -- without a text of the user the automatic requirements stand alone
    have hbuild : buildRequirements ar r = ar := by
      rw [hr, buildRequirements, if_neg (by simp)]
      split
      · rfl
      · rename_i hnil
        rw [not_not] at hnil
        exact hnil.symm
    have hesc : ¬ Escapes lib o r := by
      rintro ⟨ts, halt, -⟩
      rw [hr] at halt
      exact absurd halt (by simp [lex, lexLoop, alternative])
    refine iff_of_true ?_ (Or.inr hesc)
    intro v hv
    rw [hbuild] at hv
    refine ⟨fun htrue => htrue ▸ hv, ?_⟩
    intro w hw
    rw [hr, hempty, Option.some.injEq] at hw
    exact ⟨v, hv, by rw [← hw, Bool.and_true]⟩
  · by_cases hnil : ar = []
    · -- without automatic requirements the user's text stands alone
      refine iff_of_true ?_ (Or.inl (hnil ▸ hempty))
      intro v hv
      rw [buildRequirements, if_pos hr, if_neg (by simp [hnil])] at hv
      refine ⟨fun _ => hnil ▸ hempty, ?_⟩
      intro w hw
      rw [hv, Option.some.injEq] at hw
      exact ⟨true, hnil ▸ hempty, by rw [hw, Bool.true_and]⟩
    · cases a with
      | true =>
        refine iff_of_true ?_ (Or.inl ha)
        intro v hv
        exact ⟨fun _ => ha, fun w hw => ⟨true, ha, paste_eq_and hnil hr hq ha hw hv⟩⟩
      | false =>
        have htrue := paste_true_iff hnil hr hq ha
        constructor
        · intro hguard
          refine Or.inr ?_
          intro hesc
          have hbad := (hguard true (htrue.mpr hesc)).1 rfl
          rw [ha] at hbad
          exact absurd hbad (by simp)
        · intro hcond v hv
          refine ⟨?_, fun w hw => ⟨false, ha, paste_eq_and hnil hr hq ha hw hv⟩⟩
          rintro rfl
          exact hcond.resolve_right (not_not.mpr (htrue.mp hv))

/-- **Automatic requirements and the user's.**  For automatic requirements that are accepted, and
quotes that stay apart, the paste is guarded on an object exactly if the automatic requirements are
true there or the user's text does not escape.  Two expressions always make their conjunction. -/
theorem guarded_iff {ar r : Text} (har : (evalBool lib o ar).isSome = true)
    (hq : QuotesApart ar r) :
    (Guarded lib o ar r ↔ evalBool lib o ar = some true ∨ ¬ Escapes lib o r) ∧
      ∀ u w, evalBool lib o ar = some u → evalBool lib o r = some w → lex ar ≠ [] → lex r ≠ [] →
        evalBool lib o (buildRequirements ar r) = some (u && w) := by
  obtain ⟨a, ha⟩ := Option.isSome_iff_exists.mp har
  refine ⟨guarded_iff_of_eval lib o ha hq, ?_⟩
  intro u w hu hw hne hne'
  refine paste_eq_some ?_ ?_ hq hu hw hne hne'
  · rintro rfl
    exact hne rfl
  · rintro rfl
    exact hne' rfl

/-- A C library in which no pattern has special characters. -/
def plainLibrary : CLibrary ℤ where
  atof := fun _ => 0
  eq := fun x y => x == y
  lt := fun x y => x < y
  fnmatch := fun p t => p == t

/-- The host 7 of the cluster 1. -/
def exampleHost : ObjectXML ℤ where
  searchInt := fun n _ => if n = some "CLUSTER_ID".toList then some 1
    else if n = some "ID".toList then some 7 else none
  searchFloat := fun _ => none
  searchString := fun _ => none
  searchInts := fun _ => []
  searchFloats := fun _ => []
  searchStrings := fun _ => []

theorem guarded_exampleHost :
    evalBool plainLibrary exampleHost
        (buildRequirements "(CLUSTER_ID = 1 | CLUSTER_ID = 2)".toList "ID = 7".toList) = some true ∧
      Guarded plainLibrary exampleHost "(CLUSTER_ID = 1 | CLUSTER_ID = 2)".toList
        "ID = 7".toList := by
  have htrue : evalBool plainLibrary exampleHost "(CLUSTER_ID = 1 | CLUSTER_ID = 2)".toList =
      some true := by decide
  have hq : QuotesApart "(CLUSTER_ID = 1 | CLUSTER_ID = 2)".toList "ID = 7".toList := by
    decide
  have hiff := guarded_iff plainLibrary exampleHost (by rw [htrue]; rfl) hq
  exact ⟨by decide, hiff.1.mpr (Or.inl htrue)⟩

/-- The user's text closes the parenthesis and adds an alternative. -/
theorem not_guarded_escape :
    ¬ ∀ (o : ObjectXML ℤ) (ar r : Text), (evalBool plainLibrary o ar).isSome = true →
      Guarded plainLibrary o ar r := by
  intro h
  have hfalse : evalBool plainLibrary exampleHost "(CLUSTER_ID = 0)".toList = some false := by
    decide
  have htrue : evalBool plainLibrary exampleHost (buildRequirements "(CLUSTER_ID = 0)".toList
      "ID = 3 ) | ( ID = 7".toList) = some true := by decide
  have hguard := h exampleHost _ _ (by rw [hfalse]; rfl) true htrue
  rw [hfalse] at hguard
  exact absurd (hguard.1 rfl) (by simp)

/-! ## The hosts of a VM -/

/-- A host that `match_hosts` adds is authorized, and the requirements are true on it. -/
theorem mem_matchLoop (req : Text) (hosts : List (Candidate F)) :
    ∀ (nAuth : ℕ) (matched : List ℕ), ∀ i ∈ (matchLoop lib req hosts nAuth matched).1,
      i ∈ matched ∨ ∃ h ∈ hosts, h.id = i ∧ h.current = false ∧ h.auth = .granted ∧
        (req = [] ∨ evalBool lib h.object req = some true) := by
  induction hosts with
  | nil => exact fun nAuth matched i hi => Or.inl hi
  | cons h hs ih =>
    intro nAuth matched i hi
    -- what the rest of the loop adds comes from the rest of the hosts
    have hrest : ∀ n, i ∈ (matchLoop lib req hs n matched).1 →
        i ∈ matched ∨ ∃ h' ∈ h :: hs, h'.id = i ∧ h'.current = false ∧ h'.auth = .granted ∧
          (req = [] ∨ evalBool lib h'.object req = some true) := by
      intro n hn
      refine (ih n matched i hn).imp id ?_
      rintro ⟨h', hmem, hrest⟩
      exact ⟨h', List.mem_cons_of_mem h hmem, hrest⟩
    have hadd : ∀ n, i ∈ (matchLoop lib req hs n (matched ++ [h.id])).1 → h.current = false →
        h.auth = .granted → (req = [] ∨ evalBool lib h.object req = some true) →
        i ∈ matched ∨ ∃ h' ∈ h :: hs, h'.id = i ∧ h'.current = false ∧ h'.auth = .granted ∧
          (req = [] ∨ evalBool lib h'.object req = some true) := by
      intro n hn hcur hauth hreq
      rcases ih n _ i hn with hmem | ⟨h', hmem, hrest⟩
      · rcases List.mem_append.mp hmem with hold | hnew
        · exact Or.inl hold
        · exact Or.inr ⟨h, List.mem_cons_self, (List.mem_singleton.mp hnew).symm, hcur, hauth, hreq⟩
      · exact Or.inr ⟨h', List.mem_cons_of_mem h hmem, hrest⟩
    rw [matchLoop] at hi
    split at hi
    · exact hrest _ hi
    · rename_i hcur
      have hcur' : h.current = false := by simpa using hcur
      split at hi
      · exact hrest _ hi
      · exact Or.inl hi
      · rename_i hauth
        split at hi
        · rename_i hemp
          exact hadd _ hi hcur' hauth (Or.inl (List.isEmpty_iff.mp hemp))
        · split at hi
          · exact Or.inl hi
          · rename_i heval
            exact hadd _ hi hcur' hauth (Or.inr heval)
          · exact hrest _ hi

/-- **The hosts of a VM.**  If the user's text escapes on none of the hosts, every host that
`match_hosts` adds meets the automatic requirements. -/
theorem automatic_of_mem_matchHosts {ar r : Text} {hosts : List (Candidate F)}
    (har : ∀ h ∈ hosts, (evalBool lib h.object ar).isSome = true) (hq : QuotesApart ar r)
    (hesc : ∀ h ∈ hosts, ¬ Escapes lib h.object r) {i : ℕ}
    (hi : i ∈ (matchHosts lib ar r hosts).1) :
    ∃ h ∈ hosts, h.id = i ∧ evalBool lib h.object ar = some true := by
  rcases mem_matchLoop lib _ hosts 0 [] i hi with hmem | ⟨h, hh, hid, -, -, hreq⟩
  · exact absurd hmem (by simp)
  · refine ⟨h, hh, hid, ?_⟩
    obtain ⟨a, ha⟩ := Option.isSome_iff_exists.mp (har h hh)
    have hguard := (guarded_iff_of_eval lib h.object ha hq).mpr (Or.inr (hesc h hh))
    have htrue : evalBool lib h.object (buildRequirements ar r) = some true := by
      rcases hreq with hnil | htrue
      · rw [hnil]
        rfl
      · exact htrue
    exact (hguard true htrue).1 rfl

/-- The host 7 is the only one that both texts allow. -/
theorem automatic_exampleHost :
    (matchHosts plainLibrary "CLUSTER_ID = 1".toList "ID = 7".toList
        [⟨7, exampleHost, false, .granted⟩]).1 = [7] ∧
      ∃ h ∈ [(⟨7, exampleHost, false, .granted⟩ : Candidate ℤ)], h.id = 7 ∧
        evalBool plainLibrary h.object "CLUSTER_ID = 1".toList = some true := by
  have hmatch : (matchHosts plainLibrary "CLUSTER_ID = 1".toList "ID = 7".toList
      [⟨7, exampleHost, false, .granted⟩]).1 = [7] := by decide
  have hnone : alternative plainLibrary exampleHost (lex "ID = 7".toList) (operand [.paren]) = none := by
    decide
  have hq : QuotesApart "CLUSTER_ID = 1".toList "ID = 7".toList := by decide
  refine ⟨hmatch, automatic_of_mem_matchHosts plainLibrary ?_ hq ?_ (i := 7) ?_⟩
  · intro h hh
    rw [List.mem_singleton.mp hh]
    decide
  · rintro h hh ⟨ts, halt, -⟩
    rw [List.mem_singleton.mp hh, hnone] at halt
    exact absurd halt (by simp)
  · rw [hmatch]
    exact List.mem_singleton_self 7

end SchedulerManagerDriver
