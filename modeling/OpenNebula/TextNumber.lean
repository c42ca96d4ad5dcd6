/-
# Numbers as text

How numbers are written to and read from a character stream, with the rules of the C++ streams:
reading skips white space, takes an optional sign (and, in base 16, an optional `0x`) and then as
many digits as there are.  Without a digit the value is `0` and the stream is broken; a number that
does not fit gives the greatest value of the type and breaks the stream too.

`getUnsigned_digits` says that a string of digits in front of something that is not a digit is read
back as its value, and `valueOf_toDigits` that the digits of a number have that number as their
value.
-/
import Mathlib

/-- A text. -/
abbrev Text := List Char

instance : LawfulBEq Text := inferInstance

namespace TextNumber

/-! ## Digits -/

/-- `isspace` of the C locale. -/
def isSpace (c : Char) : Bool :=
  c == ' ' || c == '\t' || c == '\n' || c == '\x0b' || c == '\x0c' || c == '\r'

/-- `std::ws`. -/
def skipWs (s : Text) : Text := s.dropWhile isSpace

/-- The value of a digit of a base up to 16. -/
def digitValue (c : Char) : Option ℕ :=
  if '0' ≤ c ∧ c ≤ '9' then some (c.toNat - 48)
  else if 'a' ≤ c ∧ c ≤ 'f' then some (c.toNat - 87)
  else if 'A' ≤ c ∧ c ≤ 'F' then some (c.toNat - 55)
  else none

/-- The digits of a base. -/
def isDigitOf (base : ℕ) (c : Char) : Bool :=
  match digitValue c with
  | some d => decide (d < base)
  | none => false

/-- The number that a string of digits stands for. -/
def valueOf (base : ℕ) (ds : Text) : ℕ :=
  ds.foldl (fun v c => base * v + (digitValue c).getD 0) 0

theorem valueOf_concat (base : ℕ) (ds : Text) (c : Char) :
    valueOf base (ds ++ [c]) = base * valueOf base ds + (digitValue c).getD 0 := by
  rw [valueOf, List.foldl_append]
  rfl

theorem digitValue_digitChar {d : ℕ} (h : d < 16) : digitValue d.digitChar = some d := by
  interval_cases d <;> decide

theorem isDigitOf_digitChar {base d : ℕ} (hb : base ≤ 16) (h : d < base) :
    isDigitOf base d.digitChar = true := by
  rw [isDigitOf, digitValue_digitChar (by omega)]
  exact decide_eq_true h

/-- **The digits of a number stand for it.** -/
theorem valueOf_toDigits {base : ℕ} (h1 : 1 < base) (h16 : base ≤ 16) (n : ℕ) :
    valueOf base (Nat.toDigits base n) = n := by
  induction n using Nat.strong_induction_on with
  | _ n ih =>
    rw [Nat.toDigits_eq_if h1]
    split
    · rename_i hlt
      rw [valueOf, List.foldl_cons, List.foldl_nil, digitValue_digitChar (by omega),
        Option.getD_some, Nat.mul_zero, Nat.zero_add]
    · rename_i hge
      have hdiv : n / base < n := Nat.div_lt_self (by omega) h1
      have hmod : n % base < 16 := lt_of_lt_of_le (Nat.mod_lt n (by omega)) h16
      rw [valueOf_concat, ih (n / base) hdiv, digitValue_digitChar hmod, Option.getD_some]
      exact Nat.div_add_mod n base

theorem isDigitOf_toDigits {base : ℕ} (h1 : 1 < base) (h16 : base ≤ 16) (n : ℕ) :
    ∀ c ∈ Nat.toDigits base n, isDigitOf base c = true := by
  induction n using Nat.strong_induction_on with
  | _ n ih =>
    intro c hc
    rw [Nat.toDigits_eq_if h1] at hc
    split at hc
    · rename_i hlt
      rw [List.mem_singleton.mp hc]
      exact isDigitOf_digitChar h16 hlt
    · rcases List.mem_append.mp hc with hc | hc
      · exact ih (n / base) (Nat.div_lt_self (by omega) h1) c hc
      · rw [List.mem_singleton.mp hc]
        exact isDigitOf_digitChar h16 (Nat.mod_lt n (by omega))

/-! ## Reading -/

/-- The result of an extraction: whether the stream is still good, the value, and what is left. -/
structure Extraction (α : Type*) where
  ok : Bool
  value : α
  rest : Text
  deriving DecidableEq

/-- An optional sign; the flag is `true` for a minus. -/
def takeSign : Text → Bool × Text
  | '-' :: s => (true, s)
  | '+' :: s => (false, s)
  | s => (false, s)

/-- The optional `0x` of base 16. -/
def dropHex (base : ℕ) : Text → Text
  | '0' :: 'x' :: s => if base = 16 then s else '0' :: 'x' :: s
  | '0' :: 'X' :: s => if base = 16 then s else '0' :: 'X' :: s
  | s => s

/-- The magnitude of a number: `none` without a digit. -/
def getDigits (base : ℕ) (s : Text) : Option ℕ × Text :=
  let s := dropHex base s
  let ds := s.takeWhile (isDigitOf base)
  (if ds = [] then none else some (valueOf base ds), s.dropWhile (isDigitOf base))

/-- `stream >> value` for an unsigned type of a given width. -/
def getUnsigned (base width : ℕ) (s : Text) : Extraction ℕ :=
  let (neg, s) := takeSign (skipWs s)
  match getDigits base s with
  | (none, rest) => ⟨false, 0, rest⟩
  | (some v, rest) =>
    if v < 2 ^ width then ⟨true, if neg then (2 ^ width - v) % 2 ^ width else v, rest⟩
    else ⟨false, 2 ^ width - 1, rest⟩

/-- `stream >> value` for a signed type of a given width. -/
def getSigned (base width : ℕ) (s : Text) : Extraction ℤ :=
  let (neg, s) := takeSign (skipWs s)
  match getDigits base s with
  | (none, rest) => ⟨false, 0, rest⟩
  | (some v, rest) =>
    if neg then
      if v ≤ 2 ^ (width - 1) then ⟨true, -v, rest⟩ else ⟨false, -2 ^ (width - 1), rest⟩
    else if v < 2 ^ (width - 1) then ⟨true, v, rest⟩
    else ⟨false, 2 ^ (width - 1) - 1, rest⟩

/-- `stream >> value` on a stream that may have failed: then, and where nothing but white space is
left, the variable keeps its value.  A stream that has failed cannot be read any more. -/
def extract (base width : ℕ) (old : ℕ) : Option Text → ℕ × Option Text
  | none => (old, none)
  | some s =>
    if skipWs s = [] then (old, none)
    else
      let e := getUnsigned base width s
      (e.value, if e.ok then some e.rest else none)

/-! ## The values that are read -/

theorem getUnsigned_lt (base width : ℕ) (s : Text) : (getUnsigned base width s).value < 2 ^ width := by
  have hpow : 0 < 2 ^ width := by positivity
  unfold getUnsigned
  dsimp only
  split
  · exact hpow
  · split_ifs with hfit hneg
    · exact Nat.mod_lt _ hpow
    · exact hfit
    · dsimp only
      omega

theorem getSigned_bounds (base width : ℕ) (s : Text) :
    -2 ^ (width - 1) ≤ (getSigned base width s).value ∧
      (getSigned base width s).value < 2 ^ (width - 1) := by
  have hpow : (0 : ℤ) < 2 ^ (width - 1) := by positivity
  unfold getSigned
  dsimp only
  split
  · simp
  · rename_i v _ _
    split_ifs with hneg hle hlt
    · have hle' : (v : ℤ) ≤ 2 ^ (width - 1) := by exact_mod_cast hle
      constructor <;> dsimp only <;> omega
    · constructor <;> dsimp only <;> omega
    · have hlt' : (v : ℤ) < 2 ^ (width - 1) := by exact_mod_cast hlt
      constructor <;> dsimp only <;> omega
    · constructor <;> dsimp only <;> omega

/-! ## Reading back what was written -/

section ReadBack

variable {base width : ℕ} {ds rest : Text}

theorem digit_cases {c : Char} (h : isDigitOf base c = true) :
    isSpace c = false ∧ c ≠ '-' ∧ c ≠ '+' ∧ c ≠ 'x' ∧ c ≠ 'X' := by
  have hv : (digitValue c).isSome = true := by
    unfold isDigitOf at h
    split at h
    · rename_i hc
      rw [hc]
      rfl
    · exact absurd h (by simp)
  have hne : ∀ d : Char, digitValue d = none → c ≠ d := by
    rintro d hd rfl
    rw [hd] at hv
    exact absurd hv (by simp)
  refine ⟨?_, hne _ (by decide), hne _ (by decide), hne _ (by decide), hne _ (by decide)⟩
  simp only [isSpace, Bool.or_eq_false_iff, beq_eq_false_iff_ne]
  exact ⟨⟨⟨⟨⟨hne _ (by decide), hne _ (by decide)⟩, hne _ (by decide)⟩, hne _ (by decide)⟩,
    hne _ (by decide)⟩, hne _ (by decide)⟩

theorem takeWhile_digits (hds : ∀ c ∈ ds, isDigitOf base c = true)
    (hrest : ∀ c ∈ rest.head?, isDigitOf base c = false) :
    (ds ++ rest).takeWhile (isDigitOf base) = ds ∧
      (ds ++ rest).dropWhile (isDigitOf base) = rest := by
  have hr : rest.takeWhile (isDigitOf base) = [] ∧ rest.dropWhile (isDigitOf base) = rest := by
    cases rest with
    | nil => exact ⟨rfl, rfl⟩
    | cons c t =>
      have hc := hrest c rfl
      exact ⟨List.takeWhile_cons_of_neg (by simp [hc]), List.dropWhile_cons_of_neg (by simp [hc])⟩
  constructor
  · rw [List.takeWhile_append_of_pos hds, hr.1, List.append_nil]
  · rw [List.dropWhile_append_of_pos hds, hr.2]

/-- The digits are where the reading starts. -/
theorem getDigits_digits (hne : ds ≠ []) (hds : ∀ c ∈ ds, isDigitOf base c = true)
    (hrest : ∀ c ∈ rest.head?, isDigitOf base c = false ∧ c ≠ 'x' ∧ c ≠ 'X') :
    takeSign (skipWs (ds ++ rest)) = (false, ds ++ rest) ∧
      getDigits base (ds ++ rest) = (some (valueOf base ds), rest) := by
  obtain ⟨hspan, hdrop⟩ := takeWhile_digits hds (fun c hc => (hrest c hc).1)
  obtain ⟨c, t, rfl⟩ := List.exists_cons_of_ne_nil hne
  obtain ⟨hspace, hminus, hplus, -, -⟩ := digit_cases (hds c List.mem_cons_self)
  have hskip : skipWs (c :: t ++ rest) = c :: t ++ rest :=
    List.dropWhile_cons_of_neg (by simp [hspace])
  have hhex : dropHex base (c :: t ++ rest) = c :: t ++ rest := by
    -- the character after a first `0` is a digit, or the first one of `rest`
    have hsecond : ∀ d u, t ++ rest = d :: u → d ≠ 'x' ∧ d ≠ 'X' := by
      intro d u hd
      cases t with
      | nil =>
        rw [List.nil_append] at hd
        rw [hd] at hrest
        exact (hrest d rfl).2
      | cons a t =>
        rw [List.cons_append, List.cons.injEq] at hd
        have hdig := digit_cases (hds a (by simp))
        rw [hd.1] at hdig
        exact ⟨hdig.2.2.2.1, hdig.2.2.2.2⟩
    rw [List.cons_append]
    unfold dropHex
    split
    · rename_i u hu
      rw [List.cons.injEq] at hu
      exact absurd rfl (hsecond _ _ hu.2).1
    · rename_i u hu
      rw [List.cons.injEq] at hu
      exact absurd rfl (hsecond _ _ hu.2).2
    · rfl
  constructor
  · rw [hskip, List.cons_append]
    unfold takeSign
    split
    · rename_i u hu
      exact absurd (List.cons.inj hu).1 hminus
    · rename_i u hu
      exact absurd (List.cons.inj hu).1 hplus
    · rfl
  · unfold getDigits
    simp only [hhex, hspan, hdrop, reduceCtorEq, if_false]

/-- **A string of digits is read as its value.** -/
theorem getUnsigned_digits (hne : ds ≠ []) (hds : ∀ c ∈ ds, isDigitOf base c = true)
    (hrest : ∀ c ∈ rest.head?, isDigitOf base c = false ∧ c ≠ 'x' ∧ c ≠ 'X')
    (hfit : valueOf base ds < 2 ^ width) :
    getUnsigned base width (ds ++ rest) = ⟨true, valueOf base ds, rest⟩ := by
  obtain ⟨hsign, hdig⟩ := getDigits_digits hne hds hrest
  unfold getUnsigned
  rw [hsign]
  simp only [hdig]
  rw [if_pos hfit]
  rfl

theorem getSigned_digits (hne : ds ≠ []) (hds : ∀ c ∈ ds, isDigitOf base c = true)
    (hrest : ∀ c ∈ rest.head?, isDigitOf base c = false ∧ c ≠ 'x' ∧ c ≠ 'X')
    (hfit : valueOf base ds < 2 ^ (width - 1)) :
    getSigned base width (ds ++ rest) = ⟨true, (valueOf base ds : ℤ), rest⟩ := by
  obtain ⟨hsign, hdig⟩ := getDigits_digits hne hds hrest
  unfold getSigned
  rw [hsign]
  simp only [hdig]
  rw [if_neg (by simp), if_pos hfit]

end ReadBack

end TextNumber
