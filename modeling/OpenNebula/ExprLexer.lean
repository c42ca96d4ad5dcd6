/-
# The scanner of the requirement expressions (`src/parsers/expr_parser.l`)

The scanner takes the longest match of its rules, and the first rule where two match the same text.
A character that no rule matches is copied to the output of the process and is skipped: among them
are a quote that is never closed, a newline and every letter outside ASCII.

The main result, `lex_append`, says when a text can be scanned in two pieces: a blank separates
tokens, unless it stands between two quotes.  Texts are those of template attributes, which have no
`NUL`.
-/
import OpenNebula.TextNumber

open TextNumber

/-- The tokens of an expression.  The value of `""` is `NULL`, which is `none`. -/
inductive Token where
  | sym (c : Char)
  | string (s : Option Text)
  | integer (n : ℤ)
  | float (text : Text)
  deriving DecidableEq, Repr

namespace ExprLexer

/-! ## One match -/

/-- `[@!&|=><()\*\+/\^-]`. -/
def isSymbol (c : Char) : Bool :=
  c ∈ ['@', '!', '&', '|', '=', '>', '<', '(', ')', '*', '+', '/', '^', '-']

/-- `[0-9A-Za-z_]`. -/
def isWord (c : Char) : Bool := c.isAlphanum || c == '_'

/-- `[^\"]`. -/
def isBody (c : Char) : Bool := c != '"'

/-- `atoi`: the conversion to a `long`, which saturates, cut to 32 bits. -/
def atoi (t : Text) : ℤ :=
  let n : ℤ := match t with
    | '-' :: ds => -(valueOf 10 ds : ℤ)
    | ds => valueOf 10 ds
  Int.bmod (max (-2 ^ 63) (min (2 ^ 63 - 1) n)) (2 ^ 32)

/-- `\.[0-9]+` and the text behind it. -/
def fraction : Text → Option (Text × Text)
  | c :: d :: rest =>
    if c = '.' ∧ d.isDigit = true then
      some (c :: d :: rest.takeWhile Char.isDigit, rest.dropWhile Char.isDigit)
    else none
  | _ => none

/-- `-?[0-9]+` or `-?[0-9]+\.[0-9]+`, whichever is longer; `start` is the first character. -/
def number (start : Char) (cs : Text) : Token × Text :=
  let ds := start :: cs.takeWhile Char.isDigit
  match fraction (cs.dropWhile Char.isDigit) with
  | some (f, rest) => (.float (ds ++ f), rest)
  | none => (.integer (atoi ds), cs.dropWhile Char.isDigit)

/-- One match of the scanner on the text `c :: cs`: the token, if the rule returns one, and the
text behind it. -/
def lexeme (c : Char) (cs : Text) : Option Token × Text :=
  if c = '"' then
    if '"' ∈ cs then
      let s := cs.takeWhile isBody
      (some (.string (if s = [] then none else some s)), (cs.dropWhile isBody).tail)
    else (none, cs)
  else if c.isAlpha then
    (some (.string (some (c :: cs.takeWhile isWord))), cs.dropWhile isWord)
  else if c.isDigit || (c == '-' && (cs.head?.map Char.isDigit).getD false) then
    (some (number c cs).1, (number c cs).2)
  else if isSymbol c then (some (.sym c), cs)
  else (none, cs)

/-- The tokens of a text, `n` matches at most. -/
def lexLoop : ℕ → Text → List Token
  | 0, _ => []
  | _, [] => []
  | n + 1, c :: cs => (lexeme c cs).1.toList ++ lexLoop n (lexeme c cs).2

/-- `expr_lex`, until the end of the text. -/
def lex (t : Text) : List Token := lexLoop t.length t

/-! ## The loop -/

theorem fraction_some {t f rest : Text} (h : fraction t = some (f, rest)) :
    ∃ d ds, t = '.' :: d :: ds ∧ d.isDigit = true ∧ rest = ds.dropWhile Char.isDigit := by
  unfold fraction at h
  split at h
  · rename_i c d ds
    split at h
    · rename_i hc
      obtain ⟨rfl, hd⟩ := hc
      rw [Option.some.injEq, Prod.mk.injEq] at h
      exact ⟨d, ds, rfl, hd, h.2.symm⟩
    · exact absurd h (by simp)
  · exact absurd h (by simp)

theorem length_number (c : Char) (cs : Text) : (number c cs).2.length ≤ cs.length := by
  have hdrop := (List.dropWhile_suffix (l := cs) Char.isDigit).length_le
  unfold number
  dsimp only
  split
  · rename_i f rest heq
    obtain ⟨d, ds, ht, -, rfl⟩ := fraction_some heq
    have hrest := (List.dropWhile_suffix (l := ds) Char.isDigit).length_le
    rw [ht] at hdrop
    simp only [List.length_cons] at hdrop
    dsimp only
    omega
  · exact hdrop

theorem length_lexeme (c : Char) (cs : Text) : (lexeme c cs).2.length ≤ cs.length := by
  unfold lexeme
  split
  · split
    · have hdrop := (List.dropWhile_suffix (l := cs) isBody).length_le
      dsimp only
      rw [List.length_tail]
      omega
    · exact le_rfl
  · split
    · exact (List.dropWhile_suffix isWord).length_le
    · split
      · exact length_number c cs
      · split <;> exact le_rfl

/-- There is at most one match for each character. -/
theorem lexLoop_eq (n : ℕ) : ∀ {m : ℕ} {t : Text}, t.length ≤ n → t.length ≤ m →
    lexLoop n t = lexLoop m t := by
  induction n with
  | zero =>
    intro m t hn _
    rw [List.length_eq_zero_iff.mp (Nat.le_zero.mp hn)]
    cases m <;> rfl
  | succ n ih =>
    intro m t hn hm
    cases t with
    | nil => cases m <;> rfl
    | cons c cs =>
      cases m with
      | zero => exact absurd hm (by simp)
      | succ m =>
        have hlen := length_lexeme c cs
        simp only [List.length_cons] at hn hm
        rw [lexLoop, lexLoop, ih (m := m) (by omega) (by omega)]

theorem lex_cons (c : Char) (cs : Text) :
    lex (c :: cs) = (lexeme c cs).1.toList ++ lex (lexeme c cs).2 := by
  rw [lex, List.length_cons, lexLoop, lex,
    lexLoop_eq cs.length (length_lexeme c cs) le_rfl]

/-! ## Two pieces of a text -/

section Pieces

variable {p : Char → Bool} {x : Char}

theorem takeWhile_stop (hx : p x = false) (cs b : Text) :
    (cs ++ x :: b).takeWhile p = cs.takeWhile p := by
  induction cs with
  | nil => rw [List.nil_append, List.takeWhile_cons, if_neg (by rw [hx]; simp), List.takeWhile_nil]
  | cons c cs ih => rw [List.cons_append, List.takeWhile_cons, List.takeWhile_cons, ih]

theorem dropWhile_stop (hx : p x = false) (cs b : Text) :
    (cs ++ x :: b).dropWhile p = cs.dropWhile p ++ x :: b := by
  induction cs with
  | nil => rw [List.nil_append, List.dropWhile_cons, if_neg (by rw [hx]; simp), List.dropWhile_nil,
      List.nil_append]
  | cons c cs ih =>
    rw [List.cons_append, List.dropWhile_cons, List.dropWhile_cons, ih]
    split <;> rfl

theorem takeWhile_of_mem (hx : p x = false) {cs : Text} (hmem : x ∈ cs) (b : Text) :
    (cs ++ b).takeWhile p = cs.takeWhile p := by
  obtain ⟨s, t, rfl⟩ := List.append_of_mem hmem
  rw [List.append_assoc, List.cons_append, takeWhile_stop hx, takeWhile_stop hx]

theorem dropWhile_of_mem (hx : p x = false) {cs : Text} (hmem : x ∈ cs) (b : Text) :
    (cs ++ b).dropWhile p = cs.dropWhile p ++ b ∧ cs.dropWhile p ≠ [] := by
  obtain ⟨s, t, rfl⟩ := List.append_of_mem hmem
  rw [List.append_assoc, List.cons_append, dropWhile_stop hx, dropWhile_stop hx]
  simp

theorem head_dropWhile {cs : Text} {c : Char} {rest : Text} (h : cs.dropWhile p = c :: rest) :
    p c = false := by
  have hhead := List.head?_dropWhile_not p cs
  rw [h] at hhead
  simpa using hhead

/-- What is dropped has no `x`. -/
theorem count_dropWhile (hx : p x = false) (cs : Text) : (cs.dropWhile p).count x = cs.count x := by
  induction cs with
  | nil => rfl
  | cons c cs ih =>
    rw [List.dropWhile_cons]
    split
    · rename_i hc
      have hne : c ≠ x := by
        rintro rfl
        rw [hx] at hc
        exact absurd hc (by simp)
      rw [ih, List.count_cons_of_ne hne]
    · rfl

end Pieces

/-- A character that no token goes on with. -/
def Stops (x : Char) : Prop := isWord x = false ∧ x ≠ '"' ∧ x ≠ '.'

theorem Stops.isDigit {x : Char} (hx : Stops x) : x.isDigit = false := by
  have hword := hx.1
  unfold isWord Char.isAlphanum at hword
  simp only [Bool.or_eq_false_iff] at hword
  exact hword.1.2

theorem stops_blank : Stops ' ' := by
  refine ⟨?_, ?_, ?_⟩
  all_goals decide

theorem stops_paren : Stops ')' := by
  refine ⟨?_, ?_, ?_⟩
  all_goals decide

theorem fraction_append {x : Char} (hx : Stops x) (cs b : Text) :
    fraction (cs ++ x :: b) = (fraction cs).map (fun f => (f.1, f.2 ++ x :: b)) := by
  have hdigit := hx.isDigit
  rcases cs with _ | ⟨c, _ | ⟨d, rest⟩⟩
  · cases b <;> simp [fraction, hx.2.2]
  · simp [fraction, hdigit]
  · simp only [List.cons_append, fraction]
    rw [takeWhile_stop hdigit, dropWhile_stop hdigit]
    split <;> rfl

theorem number_append {x : Char} (hx : Stops x) (c : Char) (cs b : Text) :
    number c (cs ++ x :: b) = ((number c cs).1, (number c cs).2 ++ x :: b) := by
  have hdigit := hx.isDigit
  unfold number
  dsimp only
  rw [takeWhile_stop hdigit, dropWhile_stop hdigit, fraction_append hx]
  cases fraction (cs.dropWhile Char.isDigit) <;> rfl

theorem count_number (c : Char) (cs : Text) : (number c cs).2.count '"' = cs.count '"' := by
  have hquote : Char.isDigit '"' = false := by decide
  have hdrop := count_dropWhile hquote cs
  unfold number
  dsimp only
  split
  · rename_i f rest heq
    obtain ⟨d, ds, ht, hd, rfl⟩ := fraction_some heq
    have hne : d ≠ '"' := by
      rintro rfl
      rw [hquote] at hd
      exact absurd hd (by simp)
    dsimp only
    rw [count_dropWhile hquote, ← hdrop, ht, List.count_cons_of_ne (by decide),
      List.count_cons_of_ne hne]
  · exact hdrop

/-- A quote that the text leaves open is not closed by what follows. -/
def QuotesApart (a b : Text) : Prop := Even (a.count '"') ∨ '"' ∉ b

instance (a b : Text) : Decidable (QuotesApart a b) := by
  unfold QuotesApart
  infer_instance

/-- The first match is not changed by what follows a character that stops it. -/
theorem lexeme_append {x : Char} (hx : Stops x) (c : Char) (cs b : Text) (h : QuotesApart (c :: cs) b) :
    lexeme c (cs ++ x :: b) = ((lexeme c cs).1, (lexeme c cs).2 ++ x :: b) ∧
      QuotesApart (lexeme c cs).2 b := by
  have hquote : isBody '"' = false := by decide
  unfold lexeme
  by_cases hc : c = '"'
  · subst hc
    rw [if_pos rfl, if_pos rfl]
    by_cases hmem : '"' ∈ cs
    · obtain ⟨hdrop, hne⟩ := dropWhile_of_mem hquote hmem (x :: b)
      rw [if_pos hmem, if_pos (List.mem_append_left _ hmem)]
      dsimp only
      rw [takeWhile_of_mem hquote hmem, hdrop, List.tail_append_of_ne_nil hne]
      refine ⟨rfl, h.imp ?_ id⟩
      -- the two quotes of the token are gone
      intro heven
      have hcount := count_dropWhile hquote cs
      obtain ⟨q, rest, hq⟩ := List.exists_cons_of_ne_nil hne
      have hquote' : q = '"' := by simpa [isBody] using head_dropWhile hq
      rw [List.count_cons_self, ← hcount, hq, hquote', List.count_cons_self] at heven
      rw [hq, List.tail_cons]
      rw [Nat.even_iff] at heven ⊢
      omega
    · have hb : '"' ∉ b := by
        refine h.resolve_left ?_
        rw [List.count_cons_self, List.count_eq_zero_of_not_mem hmem]
        decide
      have hnot : '"' ∉ cs ++ x :: b := by
        simp [hmem, hb, Ne.symm hx.2.1]
      rw [if_neg hmem, if_neg hnot]
      exact ⟨rfl, Or.inr hb⟩
  · rw [if_neg hc, if_neg hc]
    have hcount : QuotesApart cs b := by
      rwa [QuotesApart, List.count_cons_of_ne hc] at h
    split
    · rw [takeWhile_stop hx.1, dropWhile_stop hx.1]
      refine ⟨rfl, ?_⟩
      rwa [QuotesApart, count_dropWhile (by decide)]
    · have hhead : ((cs ++ x :: b).head?.map Char.isDigit).getD false =
          (cs.head?.map Char.isDigit).getD false := by
        cases cs with
        | nil => exact hx.isDigit
        | cons d cs => rfl
      rw [hhead]
      split
      · rw [number_append hx]
        refine ⟨rfl, ?_⟩
        rwa [QuotesApart, count_number]
      · split
        · exact ⟨rfl, hcount⟩
        · exact ⟨rfl, hcount⟩

theorem lex_blank (b : Text) : lex (' ' :: b) = lex b := by
  rw [lex_cons]
  rfl

theorem lex_append_of_length {x : Char} (hx : Stops x) (n : ℕ) : ∀ {a b : Text}, a.length ≤ n →
    QuotesApart a b → lex (a ++ x :: b) = lex a ++ lex (x :: b) := by
  induction n with
  | zero =>
    intro a b hlen _
    rw [List.length_eq_zero_iff.mp (Nat.le_zero.mp hlen), List.nil_append]
    rfl
  | succ n ih =>
    intro a b hlen h
    cases a with
    | nil => rfl
    | cons c cs =>
      obtain ⟨heq, hrest⟩ := lexeme_append hx c cs b h
      have hle := length_lexeme c cs
      rw [List.length_cons] at hlen
      rw [List.cons_append, lex_cons, heq, lex_cons, ih (by omega) hrest, List.append_assoc]

/-- **A text in two pieces.**  A character that no token goes on with separates them, unless the first
piece leaves a quote open that the second one closes. -/
theorem lex_append_stop {x : Char} (hx : Stops x) {a b : Text} (h : QuotesApart a b) :
    lex (a ++ x :: b) = lex a ++ lex (x :: b) :=
  lex_append_of_length hx a.length le_rfl h

/-- A blank separates the tokens. -/
theorem lex_append {a b : Text} (h : QuotesApart a b) : lex (a ++ ' ' :: b) = lex a ++ lex b := by
  rw [lex_append_stop stops_blank h, lex_blank]

end ExprLexer
