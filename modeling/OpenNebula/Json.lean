/-
# JSON texts

A value, the grammar of its texts and a decoder.  The grammar `Reads` is the one of RFC 8259, as a
relation between a text, what is read from its front and the text that is left.  The decoder has
bounded depth; twice the length of the text is enough.

The decoder reads what the grammar has (`decode_sound`).  A text of the grammar has no control
characters other than the ones of the whitespace (`IsJson.isWs_of_isControl`).  The rules
`value_string`, `value_array`, `value_object`, `elements_last`, `elements_cons`, `members_last` and
`members_cons` are the steps in which a text that a program has written is read back.
-/
import Mathlib

/-- A value of JSON.  A number is kept as its text, an object has its members in their order. -/
inductive Json
  | null
  | bool (b : Bool)
  | number (t : List Char)
  | string (t : List Char)
  | array (items : List Json)
  | object (members : List (List Char × Json))

namespace Json

/-! ## Characters -/

/-- Whitespace. -/
def isWs (c : Char) : Bool := c = ' ' || c = '\t' || c = '\n' || c = '\r'

/-- A control character, which a string does not have. -/
def isControl (c : Char) : Bool := c.toNat < 0x20

/-- The character of an escape of two characters. -/
def escapeOf (c : Char) : Option Char :=
  if c = '"' then some '"'
  else if c = '\\' then some '\\'
  else if c = '/' then some '/'
  else if c = 'b' then some '\x08'
  else if c = 'f' then some '\x0c'
  else if c = 'n' then some '\n'
  else if c = 'r' then some '\r'
  else if c = 't' then some '\t'
  else none

/-- A hexadecimal digit. -/
def hexDigit (c : Char) : Option ℕ :=
  if '0' ≤ c ∧ c ≤ '9' then some (c.toNat - 48)
  else if 'a' ≤ c ∧ c ≤ 'f' then some (c.toNat - 87)
  else if 'A' ≤ c ∧ c ≤ 'F' then some (c.toNat - 55)
  else none

/-- The code unit of four digits. -/
def hexUnit (c₁ c₂ c₃ c₄ : Char) : Option ℕ := do
  let d₁ ← hexDigit c₁
  let d₂ ← hexDigit c₂
  let d₃ ← hexDigit c₃
  let d₄ ← hexDigit c₄
  return ((d₁ * 16 + d₂) * 16 + d₃) * 16 + d₄

/-- The characters of a string: an escaped code unit above the basic plane comes with a second one. -/
def joinUnits : List (Char ⊕ ℕ) → Option (List Char)
  | [] => some []
  | .inl c :: us => (joinUnits us).map (c :: ·)
  | [.inr u] => if 0xD800 ≤ u ∧ u < 0xE000 then none else some [Char.ofNat u]
  | .inr u :: .inl c :: us =>
    if 0xD800 ≤ u ∧ u < 0xE000 then none
    else (joinUnits us).map fun t => Char.ofNat u :: c :: t
  | .inr u :: .inr l :: us =>
    if 0xD800 ≤ u ∧ u < 0xE000 then
      if u < 0xDC00 ∧ 0xDC00 ≤ l ∧ l < 0xE000 then
        (joinUnits us).map (Char.ofNat (0x10000 + (u - 0xD800) * 0x400 + (l - 0xDC00)) :: ·)
      else none
    else (joinUnits (.inr l :: us)).map (Char.ofNat u :: ·)

/-! ### Numbers -/

/-- A character of a number. -/
def isNumberChar (c : Char) : Bool :=
  c.isDigit || c = '-' || c = '+' || c = '.' || c = 'e' || c = 'E'

/-- An exponent, or nothing. -/
def isExponent : List Char → Bool
  | [] => true
  | e :: t =>
    let digits := if t.head? = some '+' ∨ t.head? = some '-' then t.tail else t
    (e = 'e' || e = 'E') && !digits.isEmpty && digits.all Char.isDigit

/-- A fraction, or nothing, in front of an exponent. -/
def isFraction : List Char → Bool
  | '.' :: t => !(t.takeWhile Char.isDigit).isEmpty && isExponent (t.dropWhile Char.isDigit)
  | t => isExponent t

/-- A number: a sign, digits that do not start with a needless zero, a fraction and an exponent. -/
def isNumber (t : List Char) : Bool :=
  let t' := if t.head? = some '-' then t.tail else t
  let digits := t'.takeWhile Char.isDigit
  t.all isNumberChar && (digits = ['0'] || (!digits.isEmpty && digits.head? != some '0')) &&
    isFraction (t'.dropWhile Char.isDigit)

/-! ## The grammar -/

/-- Whitespace in front of a text. -/
def Ws (s rest : List Char) : Prop := ∃ w, s = w ++ rest ∧ ∀ c ∈ w, isWs c = true

/-- A string up to its quotation mark. -/
inductive Units : List Char → List (Char ⊕ ℕ) → List Char → Prop
  | close {s : List Char} : Units ('"' :: s) [] s
  | plain {c : Char} {s rest : List Char} {us : List (Char ⊕ ℕ)} (hquote : c ≠ '"') (hescape : c ≠ '\\')
      (hcontrol : isControl c = false) (h : Units s us rest) : Units (c :: s) (.inl c :: us) rest
  | escape {c d : Char} {s rest : List Char} {us : List (Char ⊕ ℕ)} (he : escapeOf c = some d)
      (h : Units s us rest) : Units ('\\' :: c :: s) (.inl d :: us) rest
  | unicode {c₁ c₂ c₃ c₄ : Char} {u : ℕ} {s rest : List Char} {us : List (Char ⊕ ℕ)}
      (hu : hexUnit c₁ c₂ c₃ c₄ = some u) (h : Units s us rest) :
      Units ('\\' :: 'u' :: c₁ :: c₂ :: c₃ :: c₄ :: s) (.inr u :: us) rest

/-- A string after its first quotation mark. -/
def Str (s t rest : List Char) : Prop := ∃ us, Units s us rest ∧ joinUnits us = some t

/-- What is read from a text: a value, the values of an array or the members of an object. -/
inductive Part
  | value (v : Json)
  | elements (vs : List Json)
  | members (ms : List (List Char × Json))

/-- **The grammar.** -/
inductive Reads : List Char → Part → List Char → Prop
  | ws {s s' rest : List Char} {v : Json} (hws : Ws s s') (h : Reads s' (.value v) rest) :
      Reads s (.value v) rest
  | null {s : List Char} : Reads ('n' :: 'u' :: 'l' :: 'l' :: s) (.value .null) s
  | true {s : List Char} : Reads ('t' :: 'r' :: 'u' :: 'e' :: s) (.value (.bool true)) s
  | false {s : List Char} : Reads ('f' :: 'a' :: 'l' :: 's' :: 'e' :: s) (.value (.bool false)) s
  | number {t s : List Char} (h : isNumber t = true) : Reads (t ++ s) (.value (.number t)) s
  | string {s t rest : List Char} (h : Str s t rest) : Reads ('"' :: s) (.value (.string t)) rest
  | emptyArray {s rest : List Char} (h : Ws s (']' :: rest)) :
      Reads ('[' :: s) (.value (.array [])) rest
  | array {s rest : List Char} {vs : List Json} (h : Reads s (.elements vs) rest) :
      Reads ('[' :: s) (.value (.array vs)) rest
  | emptyObject {s rest : List Char} (h : Ws s ('}' :: rest)) :
      Reads ('{' :: s) (.value (.object [])) rest
  | object {s rest : List Char} {ms : List (List Char × Json)} (h : Reads s (.members ms) rest) :
      Reads ('{' :: s) (.value (.object ms)) rest
  | lastElement {s s' rest : List Char} {v : Json} (hv : Reads s (.value v) s')
      (hclose : Ws s' (']' :: rest)) : Reads s (.elements [v]) rest
  | nextElement {s s' s'' rest : List Char} {v : Json} {vs : List Json}
      (hv : Reads s (.value v) s') (hcomma : Ws s' (',' :: s''))
      (hvs : Reads s'' (.elements vs) rest) : Reads s (.elements (v :: vs)) rest
  | lastMember {s s₁ s₂ s₃ s₄ rest name : List Char} {v : Json} (hquote : Ws s ('"' :: s₁))
      (hname : Str s₁ name s₂) (hcolon : Ws s₂ (':' :: s₃)) (hv : Reads s₃ (.value v) s₄)
      (hclose : Ws s₄ ('}' :: rest)) : Reads s (.members [(name, v)]) rest
  | nextMember {s s₁ s₂ s₃ s₄ s₅ rest name : List Char} {v : Json} {ms : List (List Char × Json)}
      (hquote : Ws s ('"' :: s₁)) (hname : Str s₁ name s₂) (hcolon : Ws s₂ (':' :: s₃))
      (hv : Reads s₃ (.value v) s₄) (hcomma : Ws s₄ (',' :: s₅))
      (hms : Reads s₅ (.members ms) rest) : Reads s (.members ((name, v) :: ms)) rest

/-- A text of JSON. -/
def IsJson (s : List Char) (v : Json) : Prop := ∃ rest, Reads s (.value v) rest ∧ Ws rest []

/-! ## The decoder -/

/-- A character after whitespace. -/
def expect (c : Char) (s : List Char) : Option (List Char) :=
  match s.dropWhile isWs with
  | [] => none
  | d :: s => if d = c then some s else none

/-- A string up to its quotation mark. -/
def units : List Char → Option (List (Char ⊕ ℕ) × List Char)
  | [] => none
  | c :: s =>
    if c = '"' then some ([], s)
    else if c = '\\' then
      match s with
      | [] => none
      | e :: s =>
        if e = 'u' then
          match s with
          | c₁ :: c₂ :: c₃ :: c₄ :: s => do
            let u ← hexUnit c₁ c₂ c₃ c₄
            let r ← units s
            return (.inr u :: r.1, r.2)
          | _ => none
        else do
          let d ← escapeOf e
          let r ← units s
          return (.inl d :: r.1, r.2)
    else if isControl c then none
    else (units s).map fun r => (.inl c :: r.1, r.2)

/-- A string after its first quotation mark. -/
def str (s : List Char) : Option (List Char × List Char) := do
  let r ← units s
  let t ← joinUnits r.1
  return (t, r.2)

/-- A value without parts that is not a string. -/
def scalar (s : List Char) : Option (Json × List Char) :=
  if ['n', 'u', 'l', 'l'] <+: s then some (.null, s.drop 4)
  else if ['t', 'r', 'u', 'e'] <+: s then some (.bool true, s.drop 4)
  else if ['f', 'a', 'l', 's', 'e'] <+: s then some (.bool false, s.drop 5)
  else
    let t := s.takeWhile isNumberChar
    if isNumber t then some (.number t, s.dropWhile isNumberChar) else none

mutual

/-- A value, with a bound for the depth. -/
def value : ℕ → List Char → Option (Json × List Char)
  | 0, _ => none
  | n + 1, s =>
    match s.dropWhile isWs with
    | [] => none
    | c :: s =>
      if c = '"' then (str s).map fun r => (.string r.1, r.2)
      else if c = '[' then
        match expect ']' s with
        | some s => some (.array [], s)
        | none => (elements n s).map fun r => (.array r.1, r.2)
      else if c = '{' then
        match expect '}' s with
        | some s => some (.object [], s)
        | none => (members n s).map fun r => (.object r.1, r.2)
      else scalar (c :: s)

/-- The values of an array up to its bracket. -/
def elements : ℕ → List Char → Option (List Json × List Char)
  | 0, _ => none
  | n + 1, s => do
    let r ← value n s
    match expect ',' r.2 with
    | some s => (elements n s).map fun r' => (r.1 :: r'.1, r'.2)
    | none => (expect ']' r.2).map fun s => ([r.1], s)

/-- The members of an object up to its brace. -/
def members : ℕ → List Char → Option (List (List Char × Json) × List Char)
  | 0, _ => none
  | n + 1, s => do
    let s ← expect '"' s
    let name ← str s
    let s ← expect ':' name.2
    let r ← value n s
    match expect ',' r.2 with
    | some s => (members n s).map fun r' => ((name.1, r.1) :: r'.1, r'.2)
    | none => (expect '}' r.2).map fun s => ([(name.1, r.1)], s)

end

/-- The value of a text. -/
def decode (s : List Char) : Option Json :=
  match value (2 * s.length) s with
  | some r => if r.2.all isWs then some r.1 else none
  | none => none

/-! ## What the decoder reads -/

variable {s s' t rest name : List Char} {c : Char} {v : Json} {vs : List Json}
  {ms : List (List Char × Json)} {n : ℕ}

theorem ws_dropWhile (s : List Char) : Ws s (s.dropWhile isWs) :=
  ⟨s.takeWhile isWs, (List.takeWhile_append_dropWhile).symm, fun _ hc => List.mem_takeWhile_imp hc⟩

theorem ws_of_expect (h : expect c s = some s') : Ws s (c :: s') := by
  have hws := ws_dropWhile s
  unfold expect at h
  split at h
  · exact absurd h (by simp)
  · rename_i d s'' hdrop
    rw [hdrop] at hws
    split_ifs at h with hd
    rw [← hd, ← Option.some.inj h]
    exact hws

theorem units_of_units {us : List (Char ⊕ ℕ)} (h : units s = some (us, rest)) :
    Units s us rest := by
  induction s using units.induct generalizing us rest with
  | case1 => exact absurd h (by simp [units])
  | case2 s =>
    rw [units.eq_def] at h
    dsimp only at h
    rw [if_pos rfl, Option.some.injEq, Prod.mk.injEq] at h
    rw [← h.1, ← h.2]
    exact .close
  | case3 => exact absurd h (by simp [units])
  | case4 c₁ c₂ c₃ c₄ s hquote ih =>
    rw [units, if_neg hquote, if_pos rfl] at h
    obtain ⟨u, hu, h⟩ := Option.bind_eq_some_iff.mp h
    obtain ⟨r, hr, h⟩ := Option.bind_eq_some_iff.mp h
    obtain ⟨hus, hrest⟩ := Prod.mk.inj (Option.some.inj h)
    rw [← hus, ← hrest]
    exact .unicode hu (ih hr)
  | case5 s hshort hquote =>
    rw [units.eq_def] at h
    dsimp only at h
    rw [if_neg hquote, if_pos rfl, if_pos rfl] at h
    split at h
    · exact (hshort _ _ _ _ _ rfl).elim
    · exact absurd h (by simp)
  | case6 e s he hquote ih =>
    rw [units.eq_def] at h
    dsimp only at h
    rw [if_neg hquote, if_pos rfl, if_neg he] at h
    obtain ⟨d, hd, h⟩ := Option.bind_eq_some_iff.mp h
    obtain ⟨r, hr, h⟩ := Option.bind_eq_some_iff.mp h
    obtain ⟨hus, hrest⟩ := Prod.mk.inj (Option.some.inj h)
    rw [← hus, ← hrest]
    exact .escape hd (ih hr)
  | case7 c s hquote hescape hcontrol =>
    rw [units.eq_def] at h
    dsimp only at h
    rw [if_neg hquote, if_neg hescape, if_pos hcontrol] at h
    exact absurd h (by simp)
  | case8 c s hquote hescape hcontrol ih =>
    rw [units.eq_def] at h
    dsimp only at h
    rw [if_neg hquote, if_neg hescape, if_neg hcontrol] at h
    obtain ⟨r, hr, h⟩ := Option.map_eq_some_iff.mp h
    obtain ⟨hus, hrest⟩ := Prod.mk.inj h
    rw [← hus, ← hrest]
    exact .plain hquote hescape (Bool.eq_false_iff.mpr hcontrol) (ih hr)

theorem str_of_str (h : str s = some (t, rest)) : Str s t rest := by
  obtain ⟨r, hr, h⟩ := Option.bind_eq_some_iff.mp h
  obtain ⟨t', ht, h⟩ := Option.bind_eq_some_iff.mp h
  obtain ⟨rfl, rfl⟩ := Prod.mk.inj (Option.some.inj h)
  exact ⟨r.1, units_of_units hr, ht⟩

theorem reads_scalar (h : scalar s = some (v, rest)) : Reads s (.value v) rest := by
  unfold scalar at h
  split_ifs at h with hnull htrue hfalse
  · obtain ⟨rfl, rfl⟩ := Prod.mk.inj (Option.some.inj h)
    obtain ⟨s', rfl⟩ := hnull
    exact .null
  · obtain ⟨rfl, rfl⟩ := Prod.mk.inj (Option.some.inj h)
    obtain ⟨s', rfl⟩ := htrue
    exact .true
  · obtain ⟨rfl, rfl⟩ := Prod.mk.inj (Option.some.inj h)
    obtain ⟨s', rfl⟩ := hfalse
    exact .false
  · obtain ⟨hnumber, h⟩ := Option.ite_none_right_eq_some.mp h
    obtain ⟨rfl, rfl⟩ := Prod.mk.inj (Option.some.inj h)
    have hreads := @Reads.number _ (s.dropWhile isNumberChar) hnumber
    rwa [List.takeWhile_append_dropWhile] at hreads

/-- What the parts of the decoder read, for a bound. -/
structure Sound (n : ℕ) : Prop where
  value : ∀ {s v rest}, value n s = some (v, rest) → Reads s (.value v) rest
  elements : ∀ {s vs rest}, elements n s = some (vs, rest) → Reads s (.elements vs) rest
  members : ∀ {s ms rest}, members n s = some (ms, rest) → Reads s (.members ms) rest

theorem Sound.value_succ (hn : Sound n) (h : Json.value (n + 1) s = some (v, rest)) :
    Reads s (.value v) rest := by
  rw [Json.value] at h
  have hws := ws_dropWhile s
  split at h
  · exact absurd h (by simp)
  rename_i c s' hdrop
  rw [hdrop] at hws
  refine .ws hws ?_
  split_ifs at h with hquote hbracket hbrace
  · subst hquote
    obtain ⟨r, hr, h⟩ := Option.map_eq_some_iff.mp h
    obtain ⟨rfl, rfl⟩ := Prod.mk.inj h
    exact .string (str_of_str hr)
  · subst hbracket
    split at h
    · rename_i s'' hclose
      obtain ⟨rfl, rfl⟩ := Prod.mk.inj (Option.some.inj h)
      exact .emptyArray (ws_of_expect hclose)
    · obtain ⟨r, hr, h⟩ := Option.map_eq_some_iff.mp h
      obtain ⟨rfl, rfl⟩ := Prod.mk.inj h
      exact .array (hn.elements hr)
  · subst hbrace
    split at h
    · rename_i s'' hclose
      obtain ⟨rfl, rfl⟩ := Prod.mk.inj (Option.some.inj h)
      exact .emptyObject (ws_of_expect hclose)
    · obtain ⟨r, hr, h⟩ := Option.map_eq_some_iff.mp h
      obtain ⟨rfl, rfl⟩ := Prod.mk.inj h
      exact .object (hn.members hr)
  · exact reads_scalar h

theorem Sound.elements_succ (hn : Sound n) (h : Json.elements (n + 1) s = some (vs, rest)) :
    Reads s (.elements vs) rest := by
  rw [Json.elements] at h
  obtain ⟨r, hr, h⟩ := Option.bind_eq_some_iff.mp h
  split at h
  · rename_i s' hcomma
    obtain ⟨r', hr', h⟩ := Option.map_eq_some_iff.mp h
    obtain ⟨rfl, rfl⟩ := Prod.mk.inj h
    exact .nextElement (hn.value hr) (ws_of_expect hcomma) (hn.elements hr')
  · obtain ⟨s', hclose, h⟩ := Option.map_eq_some_iff.mp h
    obtain ⟨rfl, rfl⟩ := Prod.mk.inj h
    exact .lastElement (hn.value hr) (ws_of_expect hclose)

theorem Sound.members_succ (hn : Sound n) (h : Json.members (n + 1) s = some (ms, rest)) :
    Reads s (.members ms) rest := by
  rw [Json.members] at h
  obtain ⟨s₁, hquote, h⟩ := Option.bind_eq_some_iff.mp h
  obtain ⟨name, hname, h⟩ := Option.bind_eq_some_iff.mp h
  obtain ⟨s₃, hcolon, h⟩ := Option.bind_eq_some_iff.mp h
  obtain ⟨r, hr, h⟩ := Option.bind_eq_some_iff.mp h
  split at h
  · rename_i s' hcomma
    obtain ⟨r', hr', h⟩ := Option.map_eq_some_iff.mp h
    obtain ⟨rfl, rfl⟩ := Prod.mk.inj h
    exact .nextMember (ws_of_expect hquote) (str_of_str hname) (ws_of_expect hcolon) (hn.value hr)
      (ws_of_expect hcomma) (hn.members hr')
  · obtain ⟨s', hclose, h⟩ := Option.map_eq_some_iff.mp h
    obtain ⟨rfl, rfl⟩ := Prod.mk.inj h
    exact .lastMember (ws_of_expect hquote) (str_of_str hname) (ws_of_expect hcolon) (hn.value hr)
      (ws_of_expect hclose)

theorem sound (n : ℕ) : Sound n := by
  induction n with
  | zero =>
    constructor
    · intro s v rest h
      exact absurd h (by simp [value])
    · intro s vs rest h
      exact absurd h (by simp [elements])
    · intro s ms rest h
      exact absurd h (by simp [members])
  | succ n ih => exact ⟨ih.value_succ, ih.elements_succ, ih.members_succ⟩

/-- **What the decoder reads is a text of the grammar.** -/
theorem decode_sound (h : decode s = some v) : IsJson s v := by
  unfold decode at h
  split at h
  · rename_i r hr
    split_ifs at h with hrest
    rw [← Option.some.inj h]
    refine ⟨r.2, (sound _).value hr, r.2, (List.append_nil _).symm, ?_⟩
    exact List.all_eq_true.mp hrest
  · exact absurd h (by simp)

/-! ## Control characters -/

/-- Every control character of a text is whitespace, or in the text that is left. -/
def Guarded (s rest : List Char) : Prop :=
  ∀ c ∈ s, isControl c = true → isWs c = true ∨ c ∈ rest

theorem Guarded.trans {s₁ s₂ s₃ : List Char} (h₁ : Guarded s₁ s₂) (h₂ : Guarded s₂ s₃) :
    Guarded s₁ s₃ := by
  intro c hc hcontrol
  rcases h₁ c hc hcontrol with hws | hc
  · exact .inl hws
  · exact h₂ c hc hcontrol

theorem Guarded.append {w : List Char} (h : ∀ c ∈ w, isControl c = true → isWs c = true) :
    Guarded (w ++ s) s := by
  intro c hc hcontrol
  rcases List.mem_append.mp hc with hc | hc
  · exact .inl (h c hc hcontrol)
  · exact .inr hc

theorem Guarded.cons (hc : isControl c = false) : Guarded (c :: s) s := by
  refine @Guarded.append s [c] ?_
  intro d hd hcontrol
  rw [List.mem_singleton.mp hd, hc] at hcontrol
  exact absurd hcontrol (by decide)

theorem Ws.guarded (h : Ws s rest) : Guarded s rest := by
  obtain ⟨w, rfl, hw⟩ := h
  exact Guarded.append fun c hc _ => hw c hc

/-- A mark after whitespace. -/
theorem Ws.guarded_cons (h : Ws s (c :: rest)) (hc : isControl c = false) : Guarded s rest :=
  h.guarded.trans (Guarded.cons hc)

theorem isControl_of_escapeOf {d : Char} (h : escapeOf c = some d) : isControl c = false := by
  unfold escapeOf at h
  split_ifs at h <;> subst c <;> rfl

theorem isControl_of_hexDigit {d : ℕ} (h : hexDigit c = some d) : isControl c = false := by
  have hle : '0'.toNat ≤ c.toNat := by
    unfold hexDigit at h
    split_ifs at h with hdigit hlower hupper
    · exact hdigit.1
    · exact le_trans (by decide) hlower.1
    · exact le_trans (by decide) hupper.1
  rw [isControl, decide_eq_false_iff_not]
  have hzero : '0'.toNat = 48 := rfl
  omega

theorem isControl_of_isNumberChar (h : isNumberChar c = true) : isControl c = false := by
  rw [isNumberChar] at h
  simp only [Bool.or_eq_true, decide_eq_true_eq] at h
  rcases h with ((((h | rfl) | rfl) | rfl) | rfl) | rfl
  · rw [Char.isDigit, Bool.and_eq_true, decide_eq_true_eq] at h
    have hle : 48 ≤ c.toNat := h.1
    rw [isControl, decide_eq_false_iff_not]
    omega
  all_goals rfl

theorem Units.guarded {us : List (Char ⊕ ℕ)} (h : Units s us rest) : Guarded s rest := by
  induction h with
  | close => exact Guarded.cons rfl
  | plain _ _ hcontrol _ ih => exact (Guarded.cons hcontrol).trans ih
  | escape he _ ih =>
    exact (Guarded.cons rfl).trans ((Guarded.cons (isControl_of_escapeOf he)).trans ih)
  | unicode hu _ ih =>
    obtain ⟨d₁, h₁, hu⟩ := Option.bind_eq_some_iff.mp hu
    obtain ⟨d₂, h₂, hu⟩ := Option.bind_eq_some_iff.mp hu
    obtain ⟨d₃, h₃, hu⟩ := Option.bind_eq_some_iff.mp hu
    obtain ⟨d₄, h₄, -⟩ := Option.bind_eq_some_iff.mp hu
    refine (Guarded.cons rfl).trans ((Guarded.cons rfl).trans ?_)
    refine (Guarded.cons (isControl_of_hexDigit h₁)).trans ?_
    refine (Guarded.cons (isControl_of_hexDigit h₂)).trans ?_
    refine (Guarded.cons (isControl_of_hexDigit h₃)).trans ?_
    exact (Guarded.cons (isControl_of_hexDigit h₄)).trans ih

theorem Str.guarded (h : Str s t rest) : Guarded s rest := by
  obtain ⟨us, hus, -⟩ := h
  exact hus.guarded

/-- A word of letters. -/
theorem guarded_word {w : List Char} (hw : w.all fun c => !isControl c) : Guarded (w ++ s) s := by
  apply Guarded.append
  intro c hc hcontrol
  have hno := List.all_eq_true.mp hw c hc
  rw [hcontrol] at hno
  exact absurd hno (by decide)

/-- The front of a member, up to its value. -/
theorem guarded_member {s₁ s₂ s₃ : List Char} (hquote : Ws s ('"' :: s₁)) (hname : Str s₁ name s₂)
    (hcolon : Ws s₂ (':' :: s₃)) : Guarded s s₃ :=
  (hquote.guarded_cons rfl).trans (hname.guarded.trans (hcolon.guarded_cons rfl))

theorem Reads.guarded {p : Part} (h : Reads s p rest) : Guarded s rest := by
  induction h with
  | ws hws _ ih => exact hws.guarded.trans ih
  | null => exact @guarded_word _ ['n', 'u', 'l', 'l'] rfl
  | true => exact @guarded_word _ ['t', 'r', 'u', 'e'] rfl
  | false => exact @guarded_word _ ['f', 'a', 'l', 's', 'e'] rfl
  | @number t s hnumber =>
    apply guarded_word
    rw [isNumber, Bool.and_eq_true, Bool.and_eq_true] at hnumber
    rw [List.all_eq_true]
    intro c hc
    rw [isControl_of_isNumberChar (List.all_eq_true.mp hnumber.1.1 c hc)]
    rfl
  | string hstr => exact (Guarded.cons rfl).trans hstr.guarded
  | emptyArray hclose => exact (Guarded.cons rfl).trans (hclose.guarded_cons rfl)
  | array _ ih => exact (Guarded.cons rfl).trans ih
  | emptyObject hclose => exact (Guarded.cons rfl).trans (hclose.guarded_cons rfl)
  | object _ ih => exact (Guarded.cons rfl).trans ih
  | lastElement _ hclose ih => exact ih.trans (hclose.guarded_cons rfl)
  | nextElement _ hcomma _ ihv ihvs => exact ihv.trans ((hcomma.guarded_cons rfl).trans ihvs)
  | lastMember hquote hname hcolon _ hclose ih =>
    exact (guarded_member hquote hname hcolon).trans (ih.trans (hclose.guarded_cons rfl))
  | nextMember hquote hname hcolon _ hcomma _ ihv ihms =>
    exact (guarded_member hquote hname hcolon).trans
      (ihv.trans ((hcomma.guarded_cons rfl).trans ihms))

/-- **The control characters of a text are whitespace.** -/
theorem IsJson.isWs_of_isControl (h : IsJson s v) (hc : c ∈ s) (hcontrol : isControl c = true) :
    isWs c = true := by
  obtain ⟨rest, hreads, hws⟩ := h
  rcases hreads.guarded.trans hws.guarded c hc hcontrol with hws | hmem
  · exact hws
  · exact absurd hmem List.not_mem_nil

/-! ## Reading a text back -/

theorem units_plain (hquote : c ≠ '"') (hescape : c ≠ '\\') (hcontrol : isControl c = false) :
    units (c :: s) = (units s).map fun r => (.inl c :: r.1, r.2) := by
  rw [units.eq_def]
  dsimp only
  rw [if_neg hquote, if_neg hescape, if_neg (by simp [hcontrol])]

theorem units_escape {d : Char} (he : escapeOf c = some d) :
    units ('\\' :: c :: s) = (units s).map fun r => (.inl d :: r.1, r.2) := by
  have hu : c ≠ 'u' := by
    rintro rfl
    exact absurd he (by simp [escapeOf])
  rw [units.eq_def]
  dsimp only
  rw [if_neg (by decide), if_pos rfl, if_neg hu, he, Option.bind_eq_bind, Option.bind_some,
    Option.map_eq_bind]
  rfl

theorem joinUnits_chars (t : List Char) : joinUnits (t.map .inl) = some t := by
  induction t with
  | nil => rfl
  | cons c t ih => rw [List.map_cons, joinUnits, ih, Option.map_some]

theorem str_of_units (h : units s = some (t.map .inl, rest)) : str s = some (t, rest) := by
  rw [str, h, Option.bind_eq_bind, Option.bind_some, joinUnits_chars]
  rfl

theorem expect_cons (hc : isWs c = false) : expect c (c :: s) = some s := by
  rw [expect, List.dropWhile_cons_of_neg (by simp [hc])]
  exact if_pos rfl

theorem expect_ne {d : Char} (hd : isWs d = false) (hne : d ≠ c) : expect c (d :: s) = none := by
  rw [expect, List.dropWhile_cons_of_neg (by simp [hd])]
  exact if_neg hne

theorem expect_ws {d : Char} (hd : isWs d = true) : expect c (d :: s) = expect c s := by
  rw [expect, List.dropWhile_cons_of_pos hd]
  rfl

theorem value_ws {d : Char} (hd : isWs d = true) (n : ℕ) (s : List Char) :
    value n (d :: s) = value n s := by
  cases n with
  | zero => rw [value, value]
  | succ n => rw [value, value, List.dropWhile_cons_of_pos hd]

theorem value_string (h : str s = some (t, rest)) :
    value (n + 1) ('"' :: s) = some (.string t, rest) := by
  rw [value, List.dropWhile_cons_of_neg (by decide)]
  dsimp only
  rw [if_pos rfl, h, Option.map_some]

theorem value_array (hopen : expect ']' s = none) (h : elements n s = some (vs, rest)) :
    value (n + 1) ('[' :: s) = some (.array vs, rest) := by
  rw [value, List.dropWhile_cons_of_neg (by decide)]
  dsimp only
  rw [if_neg (by decide), if_pos rfl, hopen, h, Option.map_some]

theorem value_object_nil (h : expect '}' s = some rest) :
    value (n + 1) ('{' :: s) = some (.object [], rest) := by
  rw [value, List.dropWhile_cons_of_neg (by decide)]
  dsimp only
  rw [if_neg (by decide), if_neg (by decide), if_pos rfl, h]

theorem value_object (hopen : expect '}' s = none) (h : members n s = some (ms, rest)) :
    value (n + 1) ('{' :: s) = some (.object ms, rest) := by
  rw [value, List.dropWhile_cons_of_neg (by decide)]
  dsimp only
  rw [if_neg (by decide), if_neg (by decide), if_pos rfl, hopen, h, Option.map_some]

theorem elements_last (hv : value n s = some (v, s')) (hcomma : expect ',' s' = none)
    (hclose : expect ']' s' = some rest) : elements (n + 1) s = some ([v], rest) := by
  rw [elements, hv, Option.bind_eq_bind, Option.bind_some]
  dsimp only
  rw [hcomma, hclose, Option.map_some]

theorem elements_cons {s'' : List Char} (hv : value n s = some (v, s'))
    (hcomma : expect ',' s' = some s'') (hvs : elements n s'' = some (vs, rest)) :
    elements (n + 1) s = some (v :: vs, rest) := by
  rw [elements, hv, Option.bind_eq_bind, Option.bind_some]
  dsimp only
  rw [hcomma]
  dsimp only
  rw [hvs, Option.map_some]

theorem members_last {s₁ s₂ s₃ s₄ : List Char} (hquote : expect '"' s = some s₁)
    (hname : str s₁ = some (name, s₂)) (hcolon : expect ':' s₂ = some s₃)
    (hv : value n s₃ = some (v, s₄)) (hcomma : expect ',' s₄ = none)
    (hclose : expect '}' s₄ = some rest) : members (n + 1) s = some ([(name, v)], rest) := by
  simp only [members, hquote, hname, hcolon, hv, hcomma, hclose, Option.bind_eq_bind,
    Option.bind_some, Option.map_some]

theorem members_cons {s₁ s₂ s₃ s₄ s₅ : List Char} (hquote : expect '"' s = some s₁)
    (hname : str s₁ = some (name, s₂)) (hcolon : expect ':' s₂ = some s₃)
    (hv : value n s₃ = some (v, s₄)) (hcomma : expect ',' s₄ = some s₅)
    (hms : members n s₅ = some (ms, rest)) :
    members (n + 1) s = some ((name, v) :: ms, rest) := by
  simp only [members, hquote, hname, hcolon, hv, hcomma, hms, Option.bind_eq_bind,
    Option.bind_some, Option.map_some]

/-! ## Writing a text -/

/-- Texts with commas between them. -/
def commas : List (List Char) → List Char
  | [] => []
  | [w] => w
  | w :: w' :: ws => w ++ ',' :: commas (w' :: ws)

/-- **The text of a value**, whatever comes after it. -/
structure Written (w : List Char) (v : Json) : Prop where
  head : ∃ d w', w = d :: w' ∧ isWs d = false ∧ d ≠ ']'
  value : ∀ n s, w.length ≤ n → value n (w ++ s) = some (v, s)

/-- The text of a member. -/
def WrittenMember (w : List Char) (m : List Char × Json) : Prop :=
  ∃ name text, w = '"' :: name ++ '"' :: ':' :: ' ' :: text ∧
    (∀ s, str (name ++ '"' :: s) = some (m.1, s)) ∧ Written text m.2

variable {w : List Char} {ws : List (List Char)}

theorem Written.expect_close (h : Written w v) (s : List Char) : expect ']' (w ++ s) = none := by
  obtain ⟨d, w', rfl, hd, hne⟩ := h.head
  exact expect_ne hd hne

theorem expect_comma_close (s : List Char) :
    expect ',' (']' :: s) = none ∧ expect ',' ('}' :: s) = none :=
  ⟨expect_ne rfl (by decide), expect_ne rfl (by decide)⟩

theorem written_string (h : ∀ s, str (w ++ '"' :: s) = some (t, s)) :
    Written ('"' :: w ++ ['"']) (.string t) := by
  refine ⟨⟨'"', w ++ ['"'], rfl, rfl, by decide⟩, ?_⟩
  intro n s hn
  obtain ⟨m, rfl⟩ : ∃ m, n = m + 1 := ⟨n - 1, by rw [List.length_append] at hn; simp at hn; omega⟩
  rw [List.cons_append, List.cons_append, List.append_assoc]
  exact value_string (h s)

theorem elements_commas (h : List.Forall₂ Written ws vs) (hne : ws ≠ []) {n : ℕ} (s : List Char)
    (hn : (commas ws).length + 1 ≤ n) : elements n (commas ws ++ ']' :: s) = some (vs, s) := by
  induction h generalizing n with
  | nil => exact absurd rfl hne
  | @cons w v ws vs hw hws ih =>
    obtain ⟨m, rfl⟩ : ∃ m, n = m + 1 := ⟨n - 1, by omega⟩
    cases hws with
    | nil =>
      have hv := hw.value m (']' :: s) (by rw [commas] at hn; omega)
      exact elements_last hv (expect_comma_close s).1 (expect_cons rfl)
    | @cons w' v' ws vs hw' hws =>
      rw [commas, List.length_append, List.length_cons] at hn
      have hv := hw.value m (',' :: (commas (w' :: ws) ++ ']' :: s)) (by omega)
      rw [commas, List.append_assoc, List.cons_append]
      exact elements_cons hv (expect_cons rfl) (ih (List.cons_ne_nil _ _) (by omega))

/-- An array that is not empty, with a space behind its bracket. -/
theorem written_array (h : List.Forall₂ Written ws vs) (hne : ws ≠ []) :
    Written ('[' :: ' ' :: commas ws ++ [']']) (.array vs) := by
  refine ⟨⟨'[', ' ' :: commas ws ++ [']'], rfl, rfl, by decide⟩, ?_⟩
  intro n s hn
  rw [List.length_append, List.length_cons, List.length_cons, List.length_singleton] at hn
  obtain ⟨m, rfl⟩ : ∃ m, n = m + 1 := ⟨n - 1, by omega⟩
  rw [List.cons_append, List.cons_append, List.cons_append, List.cons_append, List.append_assoc,
    List.singleton_append]
  have hspace : isWs ' ' = true := rfl
  refine value_array ?_ ?_
  · rw [expect_ws hspace]
    cases h with
    | nil => exact absurd rfl hne
    | @cons w v ws vs hw hws =>
      cases ws with
      | nil => exact hw.expect_close _
      | cons w' ws =>
        rw [commas, List.append_assoc]
        exact hw.expect_close _
  · have helements := elements_commas h hne s (show (commas ws).length + 1 ≤ m by omega)
    cases m with
    | zero => omega
    | succ m =>
      rw [elements] at helements ⊢
      rwa [value_ws hspace]

theorem members_commas (h : List.Forall₂ WrittenMember ws ms) (hne : ws ≠ []) {n : ℕ}
    (s : List Char) (hn : (commas ws).length ≤ n) :
    members n (commas ws ++ '}' :: s) = some (ms, s) := by
  induction h generalizing n with
  | nil => exact absurd rfl hne
  | @cons w m ws ms hw hws ih =>
    obtain ⟨name, text, rfl, hname, htext⟩ := hw
    obtain ⟨d, text', hhead, hd, -⟩ := htext.head
    have hspace : isWs ' ' = true := rfl
    cases hws with
    | nil =>
      rw [commas] at hn ⊢
      simp only [List.length_append, List.length_cons] at hn
      obtain ⟨n, rfl⟩ : ∃ m, n = m + 1 := ⟨n - 1, by omega⟩
      have hv := htext.value n ('}' :: s) (by omega)
      rw [← value_ws hspace] at hv
      simp only [List.append_assoc, List.cons_append]
      exact members_last (expect_cons rfl) (hname _) (expect_cons rfl) hv (expect_comma_close s).2
        (expect_cons rfl)
    | @cons w' m' ws ms hw' hws =>
      rw [commas] at hn ⊢
      simp only [List.length_append, List.length_cons] at hn
      obtain ⟨n, rfl⟩ : ∃ m, n = m + 1 := ⟨n - 1, by omega⟩
      have hv := htext.value n (',' :: (commas (w' :: ws) ++ '}' :: s)) (by omega)
      rw [← value_ws hspace] at hv
      simp only [List.append_assoc, List.cons_append]
      exact members_cons (expect_cons rfl) (hname _) (expect_cons rfl) hv (expect_cons rfl)
        (ih (List.cons_ne_nil _ _) (by omega))

theorem written_object (h : List.Forall₂ WrittenMember ws ms) :
    Written ('{' :: commas ws ++ ['}']) (.object ms) := by
  refine ⟨⟨'{', commas ws ++ ['}'], rfl, rfl, by decide⟩, ?_⟩
  intro n s hn
  rw [List.length_append, List.length_cons, List.length_singleton] at hn
  obtain ⟨m, rfl⟩ : ∃ m, n = m + 1 := ⟨n - 1, by omega⟩
  rw [List.cons_append, List.cons_append, List.append_assoc, List.singleton_append]
  by_cases hne : ws = []
  · subst hne
    cases h
    exact value_object_nil (expect_cons rfl)
  · refine value_object ?_ (members_commas h hne s (by omega))
    cases h with
    | nil => exact absurd rfl hne
    | @cons w m ws ms hw hws =>
      obtain ⟨name, text, rfl, -, -⟩ := hw
      cases ws with
      | nil => exact expect_ne rfl (by decide)
      | cons w' ws => exact expect_ne rfl (by decide)

/-- **A text that is written by the rules is decoded to its value.** -/
theorem Written.decode (h : Written w v) : decode w = some v := by
  have hv := h.value (2 * w.length) [] (by omega)
  rw [List.append_nil] at hv
  rw [Json.decode, hv]
  rfl

end Json
