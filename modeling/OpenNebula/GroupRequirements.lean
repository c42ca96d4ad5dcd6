/-
# The requirements that groups add

The texts that the groups add to the requirements of a virtual machine are made of comparisons with numbers,
in parentheses and joined by `&` or `|`.  The parser reads each of them as one expression (`Clean`).  So
requirements of any text `r` with such an `s` behind them, `r & (s)`, are true only where both are
(`evalBool_added`): what is added stays required, whatever is added later.
-/
import OpenNebula.RankScheduler
import OpenNebula.SchedRequirements

open TextNumber ExprLexer ExprBool ExprBool.ParserState SchedulerManagerDriver

namespace RankScheduler

variable {F δ : Type} {lib : CLibrary F} {o : ObjectXML F}

/-! ## Numbers in a text -/

/-- Digits behind a digit or a sign are one number. -/
theorem lex_number {c : Char} {ds : Text} (hds : ∀ d ∈ ds, d.isDigit = true)
    (hc : c.isDigit = true ∨ (c = '-' ∧ ds ≠ [])) : lex (c :: ds) = [.integer (atoi (c :: ds))] := by
  have htake : ds.takeWhile Char.isDigit = ds := List.takeWhile_eq_self_iff.mpr hds
  have hdrop : ds.dropWhile Char.isDigit = [] := List.dropWhile_eq_nil_iff.mpr hds
  have hnumber : number c ds = (.integer (atoi (c :: ds)), []) := by
    unfold number
    dsimp only
    rw [htake, hdrop]
    rfl
  have hstart : (c.isDigit || (c == '-' && (ds.head?.map Char.isDigit).getD false)) = true := by
    rcases hc with hc | ⟨rfl, hne⟩
    · rw [hc, Bool.true_or]
    · cases ds with
      | nil => exact absurd rfl hne
      | cons d ds =>
        have hd := hds d List.mem_cons_self
        rw [List.head?_cons, Option.map_some, Option.getD_some, hd]
        rfl
  have hquote : c ≠ '"' := by
    rintro rfl
    rcases hc with hc | ⟨hc, -⟩
    · exact absurd hc (by decide)
    · exact absurd hc (by decide)
  have halpha : ¬ c.isAlpha = true := by
    rcases hc with hc | ⟨rfl, -⟩
    · intro h
      unfold Char.isDigit at hc
      unfold Char.isAlpha Char.isUpper Char.isLower at h
      simp only [Bool.and_eq_true, Bool.or_eq_true, decide_eq_true_eq] at hc h
      have hdigit := UInt32.le_iff_toNat_le.mp hc.2
      rcases h with h | h
      · exact absurd (le_trans (UInt32.le_iff_toNat_le.mp h.1) hdigit) (by decide)
      · exact absurd (le_trans (UInt32.le_iff_toNat_le.mp h.1) hdigit) (by decide)
    · decide
  have hlexeme : lexeme c ds = (some (.integer (atoi (c :: ds))), []) := by
    unfold lexeme
    rw [if_neg hquote, if_neg halpha, if_pos hstart, hnumber]
  rw [lex_cons, hlexeme]
  rfl

theorem atoi_intText {n : ℤ} (hn : IsInt n) : atoi (intText n) = n := by
  have hvalue : valueOf 10 (Nat.toDigits 10 n.natAbs) = n.natAbs :=
    valueOf_toDigits (by decide) (by decide) _
  obtain ⟨hlow, hhigh⟩ := hn
  have hread : ∀ m : ℤ, m = n → Int.bmod (max (-2 ^ 63) (min (2 ^ 63 - 1) m)) (2 ^ 32) = n := by
    rintro m rfl
    rw [min_eq_right (by omega), max_eq_right (by omega)]
    exact Int.bmod_eq_of_le (by omega) (by omega)
  unfold intText atoi
  split_ifs with hneg
  · refine hread _ ?_
    show -((valueOf 10 (Nat.toDigits 10 n.natAbs) : ℕ) : ℤ) = n
    rw [hvalue]
    omega
  · obtain ⟨c, ds, heq⟩ := List.exists_cons_of_ne_nil (Nat.toDigits_ne_nil (b := 10) (n := n.natAbs))
    have hdigit : c.isDigit = true :=
      Nat.isDigit_of_mem_toDigits (by decide) (by decide) (heq ▸ List.mem_cons_self)
    refine hread _ ?_
    rw [heq] at hvalue ⊢
    split
    · rename_i h
      obtain ⟨rfl, -⟩ := List.cons.inj h
      exact absurd hdigit (by decide)
    · rw [hvalue]
      omega

/-- A number of 32 bits in a text. -/
theorem lex_intText (n : ℤ) : ∃ m, lex (intText n) = [.integer m] ∧ (IsInt n → m = n) := by
  have hds : ∀ d ∈ Nat.toDigits 10 n.natAbs, d.isDigit = true := fun d hd =>
    Nat.isDigit_of_mem_toDigits (by decide) (by decide) hd
  refine ⟨atoi (intText n), ?_, atoi_intText⟩
  unfold intText
  split_ifs with hneg
  · exact lex_number hds (Or.inr ⟨rfl, Nat.toDigits_ne_nil⟩)
  · obtain ⟨c, ds, heq⟩ := List.exists_cons_of_ne_nil (Nat.toDigits_ne_nil (b := 10) (n := n.natAbs))
    rw [heq] at hds ⊢
    exact lex_number (fun d hd => hds d (List.mem_cons_of_mem c hd)) (Or.inl (hds c List.mem_cons_self))

/-! ## Clean texts -/

/-- Nothing but the left operand of `&` or `|` waits on the stack. -/
def Opens (s : List Frame) : Prop := s = [] ∨ ∃ v, s = [.and v] ∨ s = [.or v]

theorem Opens.reduce {s : List Frame} (h : Opens s) (v : Bool) : ∃ w, ExprBool.reduce v s = value w [] := by
  rcases h with rfl | ⟨u, rfl | rfl⟩
  · exact ⟨v, rfl⟩
  · exact ⟨u && v, rfl⟩
  · exact ⟨u || v, rfl⟩

/-- A text without quotes that is read as one expression, at the start and behind an `&` or `|`. -/
structure Clean (lib : CLibrary F) (t : Text) : Prop where
  no_quotes : '"' ∉ t
  reads : ∀ o s, Opens s → ∃ w, run lib o (operand s) (lex t) = some (value w [])

/-- The value of a clean text. -/
theorem Clean.run_start {t : Text} (h : Clean lib t) (o : ObjectXML F) :
    ∃ w, run lib o (operand []) (lex t) = some (value w []) ∧ evalBool lib o t = some w := by
  obtain ⟨w, hw⟩ := h.reads o [] (Or.inl rfl)
  refine ⟨w, hw, ?_⟩
  rw [evalBool, parse, hw]
  rfl

theorem quotesApart_of_notMem {a b : Text} (h : '"' ∉ b) : QuotesApart a b := Or.inr h

theorem lex_open (t : Text) : lex ('(' :: t) = .sym '(' :: lex t := lex_cons '(' t

theorem lex_close (t : Text) : lex (t ++ [')']) = lex t ++ [.sym ')'] := by
  rw [lex_append_stop stops_paren (quotesApart_of_notMem (by decide))]
  rfl

/-- A comparison with a number. -/
theorem Clean.compare {t : Text} {name : Option Text} {c : Comparison} {m : ℤ} (hc : '"' ∉ t)
    (hlex : lex t = .string name :: (c.tokens ++ [.integer m])) : Clean lib t := by
  refine ⟨hc, fun o s hs => ?_⟩
  obtain ⟨w, hw⟩ := hs.reduce (compareInt o name m c)
  have hcompare : compareWith lib o name c (.integer m) = some (compareInt o name m c) := rfl
  have hreads := (Yields.compare hcompare).reads lib o s
  exact ⟨w, by rw [hlex, hreads, hw]⟩

theorem Clean.paren {t : Text} (h : Clean lib t) : Clean lib ('(' :: (t ++ [')'])) := by
  refine ⟨?_, fun o s hs => ?_⟩
  · rw [List.mem_cons, List.mem_append, List.mem_singleton]
    rintro (hq | hq | hq)
    · exact absurd hq (by decide)
    · exact h.no_quotes hq
    · exact absurd hq (by decide)
  · obtain ⟨v, hrun, -⟩ := h.run_start o
    obtain ⟨w, hw⟩ := hs.reduce v
    refine ⟨w, ?_⟩
    rw [lex_open, lex_close, run_cons]
    show run lib o (onto (.paren :: s) (operand [])) _ = _
    rw [run_append, run_onto_paren lib o s _ hrun]
    show some (ExprBool.reduce v s) = _
    rw [hw]

theorem Clean.join {a b : Text} {c : Char} (hc : c = '&' ∨ c = '|') (ha : Clean lib a)
    (hb : Clean lib b) : Clean lib (a ++ ([' ', c, ' '] ++ b)) := by
  have hquote : '"' ∉ c :: ' ' :: b := by
    rw [List.mem_cons, List.mem_cons]
    rintro (rfl | hq | hq)
    · exact absurd hc (by decide)
    · exact absurd hq (by decide)
    · exact hb.no_quotes hq
  refine ⟨?_, fun o s hs => ?_⟩
  · rw [List.mem_append]
    rintro (hq | hq)
    · exact ha.no_quotes hq
    · rcases List.mem_cons.mp hq with hq | hq
      · exact absurd hq (by decide)
      · exact hquote hq
  · obtain ⟨v, hv⟩ := ha.reads o s hs
    have hlex : lex (a ++ ([' ', c, ' '] ++ b)) = lex a ++ .sym c :: lex b := by
      show lex (a ++ ' ' :: c :: ' ' :: b) = _
      rw [lex_append (quotesApart_of_notMem hquote)]
      rcases hc with rfl | rfl
      · rw [show lex ('&' :: ' ' :: b) = .sym '&' :: lex (' ' :: b) from lex_cons _ _, lex_blank]
      · rw [show lex ('|' :: ' ' :: b) = .sym '|' :: lex (' ' :: b) from lex_cons _ _, lex_blank]
    rw [hlex, run_append, hv, Option.bind_some, run_cons]
    rcases hc with rfl | rfl
    · exact hb.reads o [.and v] (Or.inr ⟨v, Or.inl rfl⟩)
    · exact hb.reads o [.or v] (Or.inr ⟨v, Or.inr rfl⟩)

/-- Clean texts joined by one operator. -/
theorem Clean.intercalate {c : Char} (hc : c = '&' ∨ c = '|') {ts : List Text} (hne : ts ≠ [])
    (hts : ∀ t ∈ ts, Clean lib t) : Clean lib ([' ', c, ' '].intercalate ts) := by
  induction ts with
  | nil => exact absurd rfl hne
  | cons t ts ih =>
    cases ts with
    | nil =>
      rw [List.intercalate_singleton]
      exact hts t List.mem_cons_self
    | cons t' ts =>
      rw [List.intercalate_cons_cons, List.append_assoc]
      exact (hts t List.mem_cons_self).join hc
        (ih (List.cons_ne_nil _ _) fun u hu => hts u (List.mem_cons_of_mem t hu))

/-! ## What is added stays required -/

/-- In front of an `&` there is an expression. -/
theorem step_and {st st' : ParserState} (h : step lib o st (.sym '&') = some st') :
    ∃ v f, st = value v f ∧ st' = operand (.and v :: f) := by
  cases st with
  | value v f => exact ⟨v, f, rfl, (Option.some.inj h).symm⟩
  | operand f => exact absurd h (Option.some_ne_none st').symm
  | name n f => exact absurd h (Option.some_ne_none st').symm
  | bang n f => exact absurd h (Option.some_ne_none st').symm
  | member n f => exact absurd h (Option.some_ne_none st').symm
  | comparing n c f => exact absurd h (Option.some_ne_none st').symm

/-- The tokens of requirements with others added. -/
theorem lex_added {r s : Text} (h : QuotesApart r s) :
    lex (r ++ " & (".toList ++ s ++ ")".toList) =
      lex r ++ .sym '&' :: .sym '(' :: (lex s ++ [.sym ')']) := by
  have hquotes : QuotesApart r ('&' :: ' ' :: '(' :: (s ++ [')'])) := by
    refine h.imp id fun hs => ?_
    simp [hs]
  rw [show r ++ " & (".toList ++ s ++ ")".toList = r ++ ' ' :: '&' :: ' ' :: '(' :: (s ++ [')']) by simp,
    lex_append hquotes, show ∀ t, lex ('&' :: t) = .sym '&' :: lex t from fun t => lex_cons '&' t,
    lex_blank, lex_open, lex_close]

/-- **An added requirement.**  Whatever the text in front of it is, the whole is true only where both are. -/
theorem evalBool_added {r s : Text} (hs : Clean lib s)
    (h : evalBool lib o (r ++ " & (".toList ++ s ++ ")".toList) = some true) :
    evalBool lib o r = some true ∧ evalBool lib o s = some true := by
  obtain ⟨w, hrun, hw⟩ := hs.run_start o
  rw [evalBool, lex_added (quotesApart_of_notMem hs.no_quotes), parse_eq_some lib o (by simp), run_append, Option.bind_eq_some_iff] at h
  obtain ⟨st, hst, h⟩ := h
  have hexplains := Explains.run lib o (lex r) (show Explains lib o (operand []) [] from Below.nil) hst
  rw [run_cons, Option.bind_eq_some_iff] at h
  obtain ⟨st', hstep, h⟩ := h
  obtain ⟨v, f, rfl, rfl⟩ := step_and hstep
  have hsettled : Settled f := hexplains.1
  rw [run_cons] at h
  change run lib o (onto (.paren :: .and v :: f) (operand [])) _ = _ at h
  rw [run_append, run_onto_paren lib o _ _ hrun] at h
  change some (ExprBool.reduce (v && w) f) = _ at h
  rw [reduce_of_settled hsettled, Option.some.injEq, ParserState.value.injEq, Bool.and_eq_true] at h
  obtain ⟨⟨rfl, rfl⟩, rfl⟩ := h
  refine ⟨?_, hw⟩
  rw [evalBool, parse, hst]
  rfl

/-- The requirements are true only where the text `c` is. -/
def Implies (lib : CLibrary F) (r : Affinity.Requirements) (c : Text) : Prop :=
  ∀ o, evalBool lib o r.toText = some true → evalBool lib o c = some true

/-- Nothing, or a clean text. -/
def CleanOrNil (lib : CLibrary F) (t : Text) : Prop := t = [] ∨ Clean lib t

theorem Implies.add {r : Affinity.Requirements} {c s : Text} (h : Implies lib r c)
    (hs : CleanOrNil lib s) : Implies lib (r.add (.text s)) c := by
  rcases hs with rfl | hs
  · exact h
  · intro o ho
    rw [Affinity.Requirements.toText_add] at ho
    split_ifs at ho with hnil hempty
    · exact h o ho
    · exact h o (by rw [List.isEmpty_iff.mp hempty]; rfl)
    · exact h o (evalBool_added hs ho).1

theorem implies_add_self {c : Text} (hc : Clean lib c) (r : Affinity.Requirements) :
    Implies lib (r.add (.text c)) c := by
  intro o ho
  rw [Affinity.Requirements.toText_add] at ho
  split_ifs at ho with hnil hempty
  · rw [show c = [] from List.isEmpty_iff.mp hnil]
    rfl
  · exact ho
  · exact (evalBool_added hc ho).2

/-! ## The texts of the groups -/

theorem quote_notMem_intText (n : ℤ) : '"' ∉ intText n := by
  intro h
  rcases TextList.mem_intText h with h | h
  · exact absurd h (by decide)
  · exact absurd h (by decide)

theorem stops_operator {x : Char} (hx : x = '=' ∨ x = '!') : Stops x := by
  rcases hx with rfl | rfl
  · refine ⟨?_, ?_, ?_⟩
    all_goals decide
  · refine ⟨?_, ?_, ?_⟩
    all_goals decide

/-- The tokens of a comparison with blanks or without. -/
theorem lex_comparison {name blank op : Text} (hname : lex name = [.string (some name)])
    (hblank : blank = [] ∨ blank = [' ']) (hop : op = ['='] ∨ op = ['!', '=']) {n m : ℤ}
    (hn : lex (intText n) = [.integer m]) :
    lex (name ++ blank ++ op ++ blank ++ intText n) =
      .string (some name) :: (lex op ++ [.integer m]) := by
  have hquote := quote_notMem_intText n
  have heq : ∀ t, lex ('=' :: t) = .sym '=' :: lex t := fun t => lex_cons '=' t
  have hbang : ∀ t, lex ('!' :: t) = .sym '!' :: lex t := fun t => lex_cons '!' t
  have hblank' : ∀ t : Text, lex (blank ++ t) = lex t := by
    intro t
    rcases hblank with rfl | rfl
    · rfl
    · exact lex_blank t
  have hrest : lex (op ++ (blank ++ intText n)) = lex op ++ [.integer m] := by
    rcases hop with rfl | rfl
    · rw [List.cons_append, List.nil_append, heq, hblank', hn, heq]
      rfl
    · rw [List.cons_append, List.cons_append, List.nil_append, hbang, heq, hblank', hn, hbang, heq]
      rfl
  have hall : '"' ∉ op ++ (blank ++ intText n) := by
    rw [List.mem_append, List.mem_append]
    rintro (h | h | h)
    · rcases hop with rfl | rfl
      · exact absurd h (by decide)
      · exact absurd h (by decide)
    · rcases hblank with rfl | rfl
      · exact absurd h (by decide)
      · exact absurd h (by decide)
    · exact hquote h
  rw [show name ++ blank ++ op ++ blank ++ intText n = name ++ (blank ++ (op ++ (blank ++ intText n)))
    by simp]
  rcases hblank with rfl | rfl
  · obtain ⟨x, rest, hx, hcons⟩ : ∃ x rest, (x = '=' ∨ x = '!') ∧ op = x :: rest := by
      rcases hop with rfl | rfl
      · exact ⟨_, _, Or.inl rfl, rfl⟩
      · exact ⟨_, _, Or.inr rfl, rfl⟩
    rw [List.nil_append, hcons, List.cons_append, lex_append_stop (stops_operator hx)]
    · rw [hname, ← List.cons_append, ← hcons, hrest]
      rfl
    · refine quotesApart_of_notMem fun h => hall ?_
      rw [hcons]
      exact List.mem_cons_of_mem x h
  · rw [List.cons_append, List.nil_append, lex_append (quotesApart_of_notMem hall), hrest, hname]
    rfl

/-- A comparison with a number is clean. -/
theorem clean_comparison {name blank op : Text} (hname : lex name = [.string (some name)])
    (hquote : '"' ∉ name) (hblank : blank = [] ∨ blank = [' ']) (hop : op = ['='] ∨ op = ['!', '='])
    (n : ℤ) : Clean lib (name ++ blank ++ op ++ blank ++ intText n) := by
  obtain ⟨m, hm, -⟩ := lex_intText n
  have hlex := lex_comparison hname hblank hop hm
  have hnone : '"' ∉ name ++ blank ++ op ++ blank ++ intText n := by
    have hblank' : '"' ∉ blank := by
      rcases hblank with rfl | rfl
      · decide
      · decide
    have hop' : '"' ∉ op := by
      rcases hop with rfl | rfl
      · decide
      · decide
    rw [List.mem_append, List.mem_append, List.mem_append, List.mem_append]
    rintro ((((h | h) | h) | h) | h)
    · exact hquote h
    · exact hblank' h
    · exact hop' h
    · exact hblank' h
    · exact quote_notMem_intText n h
  rcases hop with rfl | rfl
  · exact Clean.compare (c := .eq) hnone hlex
  · exact Clean.compare (c := .ne) hnone hlex

theorem lex_currentVmsName : lex "CURRENT_VMS".toList = [.string (some "CURRENT_VMS".toList)] := by
  decide

theorem currentVms_eq (v : ℤ) :
    Affinity.currentVms v = "CURRENT_VMS".toList ++ [' '] ++ ['='] ++ [' '] ++ intText v := by
  have hfront : "CURRENT_VMS = ".toList = "CURRENT_VMS".toList ++ [' '] ++ ['='] ++ [' '] := by
    decide
  exact congrArg (· ++ intText v) hfront

theorem clean_currentVms (v : ℤ) : Clean lib (Affinity.currentVms v) := by
  rw [currentVms_eq]
  exact clean_comparison lex_currentVmsName (by decide) (Or.inr rfl) (Or.inl rfl) v

theorem cleanOrNil_affinityRequirements (v : ℤ) (vms : Finset ℤ) :
    CleanOrNil lib (affinityRequirements v .ANTI_AFFINED vms) := by
  unfold affinityRequirements
  dsimp only
  generalize (vms.sort (· ≤ ·)).filter _ = ids
  cases ids with
  | nil => exact Or.inl rfl
  | cons id ids =>
    refine Or.inr (Clean.intercalate (c := '&') (Or.inl rfl) (by simp) ?_)
    intro t ht
    obtain ⟨id, -, rfl⟩ := List.mem_map.mp ht
    have h : Clean lib ("CURRENT_VMS".toList ++ [' '] ++ ['!', '='] ++ [' '] ++ intText id) :=
      clean_comparison lex_currentVmsName (by decide) (Or.inr rfl) (Or.inr rfl) id
    have hfront : "(CURRENT_VMS ".toList ++ "!=".toList ++ " ".toList =
        '(' :: ("CURRENT_VMS".toList ++ [' '] ++ ['!', '='] ++ [' ']) := by
      decide
    rw [hfront]
    exact h.paren

theorem cleanOrNil_hostRequirements {op1 op2 : Text} (hop1 : op1 = ['='] ∨ op1 = ['!', '='])
    {c : Char} (hop2 : op2 = [c]) (hc : c = '&' ∨ c = '|') (hosts : List ℤ) :
    CleanOrNil lib (Affinity.hostRequirements hosts op1 op2) := by
  unfold Affinity.hostRequirements
  cases hosts with
  | nil => exact Or.inl rfl
  | cons hid hosts =>
    refine Or.inr ?_
    rw [hop2]
    refine Clean.intercalate hc (by simp) ?_
    intro t ht
    obtain ⟨hid, -, rfl⟩ := List.mem_map.mp ht
    have hname : lex "ID".toList = [.string (some "ID".toList)] := by decide
    have h : Clean lib ("ID".toList ++ [] ++ op1 ++ [] ++ intText hid) :=
      clean_comparison hname (by decide) (Or.inl rfl) hop1 hid
    rw [List.append_nil, List.append_nil] at h
    exact h.paren

theorem cleanOrNil_ruleRequirements (g : VMGroupXML) (rule : Affinity.VMGroupRule) (i : ℕ) :
    CleanOrNil lib (g.ruleRequirements rule i) := by
  unfold VMGroupXML.ruleRequirements
  generalize hreqs : ((List.range Affinity.maxRoles).filterMap fun j => _).filter _ = reqs
  cases reqs with
  | nil => exact Or.inl rfl
  | cons req reqs =>
    refine Or.inr (Clean.intercalate (c := '&') (Or.inl rfl) (List.cons_ne_nil _ _) ?_)
    intro t ht
    rw [← hreqs] at ht
    obtain ⟨hmem, hne⟩ := List.mem_filter.mp ht
    obtain ⟨j, -, hj⟩ := List.mem_filterMap.mp hmem
    split_ifs at hj
    obtain ⟨r, -, rfl⟩ := Option.map_eq_some_iff.mp hj
    refine (cleanOrNil_affinityRequirements (-1) r.vms).resolve_left fun hnil => ?_
    rw [hnil] at hne
    exact absurd hne (by decide)

/-- **`CURRENT_VMS`** is true only of virtual machines that are in the host or were dispatched to it. -/
theorem mem_of_evalBool_currentVms {host : HostXML F δ} {l : ℤ} (hint : IsInt l) (hpos : 0 ≤ l)
    (h : evalBool lib host.search (Affinity.currentVms l) = some true) :
    l ∈ host.vms ∨ l ∈ host.dispatchedVms := by
  obtain ⟨m, hm, heq⟩ := lex_intText l
  obtain rfl := heq hint
  have hlex : lex (Affinity.currentVms m) =
      .string (some "CURRENT_VMS".toList) :: (lex ['='] ++ [.integer m]) := by
    rw [currentVms_eq]
    exact lex_comparison lex_currentVmsName (Or.inr rfl) (Or.inl rfl) hm
  rw [evalBool, hlex] at h
  change some ((host.search.searchInt (some "CURRENT_VMS".toList) (some m)).any (· == m)) = some true at h
  by_contra hnot
  rw [Option.some.injEq] at h
  unfold HostXML.search at h
  dsimp only at h
  rw [if_pos rfl, if_neg hnot, Option.any_some, beq_iff_eq] at h
  omega

end RankScheduler
