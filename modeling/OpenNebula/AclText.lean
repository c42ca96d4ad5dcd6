/-
# What the text of a rule shows (`AclRule::build_str`)

`malformed` and `build_str` look at different bits of a rule.  The text of a rule that is accepted shows
its selectors, its identifiers, the types of its objects but for ACL, and the low four bits of its rights
(`shownUser`, `shownResource`, `shownRights`).  So two accepted rules have the same text exactly when
they agree in these bits (`toStr_eq_iff`).  The other bits are hidden: the high bits of the user and of
the zone and the type ACL are not looked at, and the rights may be negative.
-/
import OpenNebula.AclSemantics
import OpenNebula.TextList

/-! ## Words that agree under a mask -/

namespace BitMask

variable {w : ℕ} {m m' x y : BitVec w}

/-- Two words have the same bits under a mask. -/
def Agree (m x y : BitVec w) : Prop := x &&& m = y &&& m

instance (m x y : BitVec w) : Decidable (Agree m x y) := inferInstanceAs (Decidable (_ = _))

theorem Agree.mono (h : Agree m x y) (hm : m &&& m' = m') : Agree m' x y := by
  rw [Agree, ← hm, ← BitVec.and_assoc, ← BitVec.and_assoc, show x &&& m = y &&& m from h]

theorem agree_or : Agree (m ||| m') x y ↔ Agree m x y ∧ Agree m' x y := by
  constructor
  · intro h
    have hleft : (m ||| m') &&& m = m := by
      ext i hi
      simp only [BitVec.getElem_and, BitVec.getElem_or]
      grind
    have hright : (m ||| m') &&& m' = m' := by
      ext i hi
      simp only [BitVec.getElem_and, BitVec.getElem_or]
      grind
    exact ⟨h.mono hleft, h.mono hright⟩
  · rintro ⟨h, h'⟩
    rw [Agree, BitVec.and_or_distrib_left, BitVec.and_or_distrib_left, show x &&& m = y &&& m from h,
      show x &&& m' = y &&& m' from h']

/-- A mask and the rest of the word. -/
theorem eq_of_agree (hall : m ||| m' = BitVec.allOnes w) (h : Agree m x y) (h' : Agree m' x y) :
    x = y := by
  have hboth := agree_or.mpr ⟨h, h'⟩
  rw [hall, Agree, BitVec.and_allOnes, BitVec.and_allOnes] at hboth
  exact hboth

/-- A mask that is one bit is in a word or not. -/
theorem agree_twoPow {k : ℕ} (hk : k < w) :
    Agree (BitVec.twoPow w k) x y ↔ (x &&& BitVec.twoPow w k = 0 ↔ y &&& BitVec.twoPow w k = 0) := by
  have hne : BitVec.twoPow w k ≠ 0#w := by
    intro hzero
    have hbit := congrArg (fun b => b.getLsbD k) hzero
    simp [hk] at hbit
  rw [Agree, BitVec.and_twoPow, BitVec.and_twoPow]
  cases x.getLsbD k <;> cases y.getLsbD k <;> simp [hne, hne.symm]

theorem agree_low {n : ℕ} (hn : n ≤ w) : Agree (low n w) x y ↔ x.setWidth n = y.setWidth n := by
  rw [Agree, ← and_low_eq_iff hn x, (and_low_eq_iff hn y (y.setWidth n)).mpr rfl]

end BitMask

/-! ## Texts with separators -/

namespace AclRule

open BitMask TextList

/-- Two texts that are cut at the first place of a character. -/
theorem append_cons_inj {c : Char} (a a' : Text) {x x' : Text} (ha : c ∉ a) (ha' : c ∉ a')
    (h : a ++ c :: x = a' ++ c :: x') : a = a' ∧ x = x' := by
  induction a generalizing a' with
  | nil =>
    cases a' with
    | nil => exact ⟨rfl, (List.cons.inj h).2⟩
    | cons b a' =>
      have hb := (List.cons.inj h).1
      rw [hb] at ha'
      exact absurd List.mem_cons_self ha'
  | cons b a ih =>
    cases a' with
    | nil =>
      have hb := (List.cons.inj h).1
      rw [← hb] at ha
      exact absurd List.mem_cons_self ha
    | cons b' a' =>
      obtain ⟨rfl, hrest⟩ := List.cons.inj h
      obtain ⟨rfl, hx⟩ := ih a' (fun hc => ha (List.mem_cons_of_mem _ hc))
        (fun hc => ha' (List.mem_cons_of_mem _ hc)) hrest
      exact ⟨rfl, hx⟩

/-- The names that are put together with plus signs can be told apart. -/
theorem splitOn_plus {l : List String} (hne : "" ∉ l) (hl : ∀ s ∈ l, '+' ∉ s.toList) :
    (("+".intercalate l).toList.splitOn '+').filter (fun part => !part.isEmpty) =
      l.map String.toList := by
  rw [String.toList_intercalate, show "+".toList = ['+'] from rfl]
  by_cases hnil : l = []
  · subst hnil
    decide
  · rw [List.splitOn_intercalate, List.filter_eq_self]
    · intro part hpart
      obtain ⟨s, hs, rfl⟩ := List.mem_map.mp hpart
      have hs' : s ≠ "" := fun heq => hne (heq ▸ hs)
      simpa using hs'
    · intro part hpart
      obtain ⟨s, hs, rfl⟩ := List.mem_map.mp hpart
      exact hl s hs
    · simpa using hnil

theorem intercalate_inj {l l' : List String} (hne : "" ∉ l) (hne' : "" ∉ l')
    (hl : ∀ s ∈ l, '+' ∉ s.toList) (hl' : ∀ s ∈ l', '+' ∉ s.toList)
    (h : ("+".intercalate l).toList = ("+".intercalate l').toList) : l = l' := by
  have hsplit := splitOn_plus hne hl
  rw [h, splitOn_plus hne' hl'] at hsplit
  exact (List.map_injective_iff.mpr (fun _ _ heq => String.toList_injective heq) hsplit).symm

/-! ## Selectors -/

/-- The selectors of a compound, with their marks in the text. -/
def selectors : List (BitVec 64 × Char) :=
  [(groupId, '@'), (individualId, '#'), (clusterId, '%'), (allId, '*')]

/-- The text of a selector and an identifier. -/
def markText (p : BitVec 64 × Char) (id : Oid) : Text :=
  if p.1 = allId then ['*'] else p.2 :: intText id.toInt

/-- A text tells its selector, and the identifier if it has one. -/
theorem markText_inj {p p' : BitVec 64 × Char} (hp : p ∈ selectors) (hp' : p' ∈ selectors)
    {id id' : Oid} (h : markText p id = markText p' id') : p = p' ∧ (p.1 ≠ allId → id = id') := by
  have hhead : ∀ p ∈ selectors, ∀ id, (markText p id).head? = some p.2 := by
    intro p hp id
    simp only [selectors, List.mem_cons, List.not_mem_nil, or_false] at hp
    rcases hp with rfl | rfl | rfl | rfl <;> rfl
  have hmark : p.2 = p'.2 := by
    have heq := congrArg List.head? h
    rw [hhead p hp, hhead p' hp'] at heq
    exact Option.some.inj heq
  have hone : ∀ p ∈ selectors, ∀ p' ∈ selectors, p.2 = p'.2 → p = p' := by decide
  obtain rfl := hone p hp p' hp' hmark
  refine ⟨rfl, fun hall => ?_⟩
  rw [markText, markText, if_neg hall, if_neg hall] at h
  have htext := (List.cons.inj h).2
  exact BitVec.eq_of_toInt_eq (intText_injective htext)

theorem space_notMem_markText {p : BitVec 64 × Char} (hp : p ∈ selectors) (id : Oid) :
    ' ' ∉ markText p id := by
  have hmark : ∀ p ∈ selectors, p.2 ≠ ' ' := by decide
  intro hmem
  unfold markText at hmem
  split_ifs at hmem
  · exact absurd (List.mem_singleton.mp hmem) (by decide)
  · rcases List.mem_cons.mp hmem with heq | hid
    · exact hmark p hp heq.symm
    · rcases mem_intText hid with heq | hdigit
      · exact absurd heq (by decide)
      · exact absurd hdigit (by decide)

theorem and_eq_zero_or {s : BitVec 64} (hs : s ∈ selectors.map Prod.fst) (x : BitVec 64) :
    x &&& s = 0 ∨ x &&& s = s := by
  have hbit : s ∈ [BitVec.twoPow 64 33, BitVec.twoPow 64 32, BitVec.twoPow 64 35,
      BitVec.twoPow 64 34] := hs
  have hone : ∀ k, x &&& BitVec.twoPow 64 k = 0 ∨ x &&& BitVec.twoPow 64 k = BitVec.twoPow 64 k := by
    intro k
    rw [BitVec.and_twoPow]
    split_ifs
    · exact Or.inr rfl
    · exact Or.inl rfl
  simp only [List.mem_cons, List.not_mem_nil, or_false] at hbit
  rcases hbit with rfl | rfl | rfl | rfl
  · exact hone 33
  · exact hone 32
  · exact hone 35
  · exact hone 34

/-- The selectors of a user and a zone: one of three bits. -/
theorem selector_of_exclusive {x : BitVec 64} (hig : ¬ (x &&& individualId ≠ 0 ∧ x &&& groupId ≠ 0))
    (hia : ¬ (x &&& individualId ≠ 0 ∧ x &&& allId ≠ 0))
    (hga : ¬ (x &&& groupId ≠ 0 ∧ x &&& allId ≠ 0)) (hsome : x &&& 0x700000000 ≠ 0) :
    x &&& 0x700000000 = groupId ∨ x &&& 0x700000000 = individualId ∨ x &&& 0x700000000 = allId := by
  have hmask : x &&& 0x700000000 = x &&& individualId ||| x &&& groupId ||| x &&& allId := by
    rw [← BitVec.and_or_distrib_left, ← BitVec.and_or_distrib_left]
    rfl
  rw [hmask] at hsome ⊢
  rcases and_eq_zero_or (s := individualId) (by decide) x with hi | hi
  · rcases and_eq_zero_or (s := groupId) (by decide) x with hg | hg
    · rcases and_eq_zero_or (s := allId) (by decide) x with ha | ha
      · rw [hi, hg, ha] at hsome
        exact absurd rfl hsome
      · rw [hi, hg, ha]
        exact Or.inr (Or.inr (by decide))
    · rcases and_eq_zero_or (s := allId) (by decide) x with ha | ha
      · rw [hi, hg, ha]
        exact Or.inl (by decide)
      · exact absurd ⟨by rw [hg]; decide, by rw [ha]; decide⟩ hga
  · rcases and_eq_zero_or (s := groupId) (by decide) x with hg | hg
    · rcases and_eq_zero_or (s := allId) (by decide) x with ha | ha
      · rw [hi, hg, ha]
        exact Or.inr (Or.inl (by decide))
      · exact absurd ⟨by rw [hi]; decide, by rw [ha]; decide⟩ hia
    · exact absurd ⟨by rw [hi]; decide, by rw [hg]; decide⟩ hig

/-- The text of a word depends on its selectors only. -/
theorem selectorStr_mask (mask : BitVec 64) (marks : List (BitVec 64 × String)) (id : Oid)
    (hmarks : ∀ m ∈ marks, mask &&& m.1 = m.1) (hall : mask &&& allId = allId) (x : BitVec 64) :
    selectorStr x id marks = selectorStr (x &&& mask) id marks := by
  have hbit : ∀ s, mask &&& s = s → x &&& mask &&& s = x &&& s := by
    intro s hs
    rw [BitVec.and_assoc, hs]
  induction marks with
  | nil => rw [selectorStr, selectorStr, hbit allId hall]
  | cons m marks ih =>
    obtain ⟨hm, hrest⟩ := List.forall_mem_cons.mp hmarks
    obtain ⟨selector, mark⟩ := m
    rw [selectorStr, selectorStr, hbit selector hm, ih hrest]

theorem toList_mark (mark : String) (id : Oid) :
    (mark ++ toString id.toInt).toList = mark.toList ++ intText id.toInt := by
  rw [String.toList_append, toList_toString]

/-- What the selector field of a word is: its text is a mark with an identifier. -/
structure Marked (x : BitVec 64) (mask : BitVec 64) (marks : List (BitVec 64 × String))
    (p : BitVec 64 × Char) : Prop where
  mem : p ∈ selectors
  field : x &&& mask = p.1
  zero : p.1 = allId → x.setWidth 32 = (0 : Oid)
  text : (selectorStr x (x.setWidth 32) marks).toList = markText p (x.setWidth 32)

/-- The marks of the users. -/
abbrev userMarks : List (BitVec 64 × String) := [(groupId, "@"), (individualId, "#")]

/-- The marks of the resources. -/
abbrev resourceMarks : List (BitVec 64 × String) :=
  [(groupId, "@"), (individualId, "#"), (clusterId, "%")]

/-- The marks of the zones. -/
abbrev zoneMarks : List (BitVec 64 × String) := [(individualId, "#")]

variable {r r' : AclRule}

theorem zero_of_all {x : BitVec 64} (mask s : BitVec 64) (hmask : mask &&& allId = allId)
    (hzero : ¬ (x &&& allId ≠ 0 ∧ x.setWidth 32 ≠ (0 : Oid))) (hs : x &&& mask = s) (hall : s = allId) :
    x.setWidth 32 = (0 : Oid) := by
  subst hall
  by_contra hne
  refine hzero ⟨?_, hne⟩
  rw [← hmask, ← BitVec.and_assoc, hs]
  decide

/-- **The user of an accepted rule** has one selector. -/
theorem marked_user (h : r.WellFormed) : ∃ p, Marked r.user 0x700000000 userMarks p := by
  have hchecks := ((wellFormed_iff r).mp h).1
  simp only [userChecks, List.forall_mem_cons, decide_eq_false_iff_not] at hchecks
  obtain ⟨hig, hia, hga, hsome, -, hzero, -⟩ := hchecks
  have hid := fun s => zero_of_all 0x700000000 s (by decide) hzero
  have htext := selectorStr_mask 0x700000000 userMarks (r.user.setWidth 32)
    (by decide) (by decide) r.user
  rcases selector_of_exclusive hig hia hga hsome with hs | hs | hs
  · refine ⟨(groupId, '@'), by decide, hs, hid _ hs, ?_⟩
    rw [htext, hs]
    exact toList_mark "@" _
  · refine ⟨(individualId, '#'), by decide, hs, hid _ hs, ?_⟩
    rw [htext, hs]
    exact toList_mark "#" _
  · refine ⟨(allId, '*'), by decide, hs, hid _ hs, ?_⟩
    rw [htext, hs, markText, if_pos rfl, selectorStr, if_neg (by decide), selectorStr,
      if_neg (by decide), selectorStr, if_pos (by decide)]
    rfl

/-- **The zone of an accepted rule** has one selector, which is not a group. -/
theorem marked_zone (h : r.WellFormed) : ∃ p, Marked r.zone 0x700000000 zoneMarks p := by
  have hchecks := ((wellFormed_iff r).mp h).2.2.2
  simp only [zoneChecks, List.forall_mem_cons, decide_eq_false_iff_not] at hchecks
  obtain ⟨hgroup, hia, hsome, -, hzero, -⟩ := hchecks
  have htext := selectorStr_mask 0x700000000 zoneMarks (r.zone.setWidth 32)
    (by decide) (by decide) r.zone
  rcases selector_of_exclusive (fun hig => hgroup hig.2) hia (fun hga => hgroup hga.1) hsome with
    hs | hs | hs
  · refine absurd ?_ hgroup
    rw [show groupId = 0x700000000 &&& groupId by decide, ← BitVec.and_assoc, hs]
    decide
  · refine ⟨(individualId, '#'), by decide, hs, zero_of_all _ _ (by decide) hzero hs, ?_⟩
    rw [htext, hs]
    exact toList_mark "#" _
  · refine ⟨(allId, '*'), by decide, hs, zero_of_all _ _ (by decide) hzero hs, ?_⟩
    rw [htext, hs, markText, if_pos rfl, selectorStr, if_neg (by decide), selectorStr,
      if_pos (by decide)]
    rfl

theorem field_of_mixed {x s : BitVec 64} (hs : s ∈ selectors.map Prod.fst) (hmix : mixed x s = false) :
    x &&& s = 0 ∨ x &&& 0xF00000000 = s := by
  rcases and_eq_zero_or hs x with hzero | hset
  · exact Or.inl hzero
  · rcases eq_or_ne s 0 with rfl | hne
    · exact Or.inl hset
    · exact Or.inr (selector_eq hne hset hmix)

/-- **The resource of an accepted rule** has one selector. -/
theorem marked_resource (h : r.WellFormed) : ∃ p, Marked r.resource 0xF00000000 resourceMarks p := by
  have hchecks := ((wellFormed_iff r).mp h).2.1
  simp only [resourceChecks, List.forall_mem_cons, decide_eq_false_iff_not] at hchecks
  obtain ⟨-, -, -, hsome, -, hzero, -⟩ := hchecks
  obtain ⟨hi, hg, hc, ha⟩ := h.not_mixed
  have htext := selectorStr_mask 0xF00000000 resourceMarks
    (r.resource.setWidth 32) (by decide) (by decide) r.resource
  have hmask : r.resource &&& 0xF00000000 = r.resource &&& individualId ||| r.resource &&& groupId |||
      r.resource &&& clusterId ||| r.resource &&& allId := by
    rw [← BitVec.and_or_distrib_left, ← BitVec.and_or_distrib_left, ← BitVec.and_or_distrib_left]
    rfl
  rcases field_of_mixed (by decide) hi with hi | hs
  · rcases field_of_mixed (by decide) hg with hg | hs
    · rcases field_of_mixed (by decide) hc with hc | hs
      · rcases field_of_mixed (by decide) ha with ha | hs
        · rw [hmask, hi, hg, hc, ha] at hsome
          exact absurd rfl hsome
        · refine ⟨(allId, '*'), by decide, hs, zero_of_all _ _ (by decide) hzero hs, ?_⟩
          rw [htext, hs, markText, if_pos rfl, selectorStr, if_neg (by decide), selectorStr,
            if_neg (by decide), selectorStr, if_neg (by decide), selectorStr, if_pos (by decide)]
          rfl
      · refine ⟨(clusterId, '%'), by decide, hs, zero_of_all _ _ (by decide) hzero hs, ?_⟩
        rw [htext, hs, selectorStr, if_neg (by decide), selectorStr, if_neg (by decide), selectorStr,
          if_pos (by decide)]
        exact toList_mark "%" _
    · refine ⟨(groupId, '@'), by decide, hs, zero_of_all _ _ (by decide) hzero hs, ?_⟩
      rw [htext, hs]
      exact toList_mark "@" _
  · refine ⟨(individualId, '#'), by decide, hs, zero_of_all _ _ (by decide) hzero hs, ?_⟩
    rw [htext, hs, selectorStr, if_neg (by decide), selectorStr, if_pos (by decide)]
    exact toList_mark "#" _

/-- The selector and the identifier are the same if the texts are. -/
theorem Marked.agree {x y mask : BitVec 64} {marks : List (BitVec 64 × String)} {p p' : BitVec 64 × Char}
    (h : Marked x mask marks p) (h' : Marked y mask marks p') :
    (selectorStr x (x.setWidth 32) marks).toList = (selectorStr y (y.setWidth 32) marks).toList ↔
      Agree (mask ||| low 32 64) x y := by
  rw [h.text, h'.text, agree_or, agree_low (by omega), Agree, h.field, h'.field]
  constructor
  · intro heq
    obtain ⟨rfl, hid⟩ := markText_inj h.mem h'.mem heq
    refine ⟨rfl, ?_⟩
    by_cases hall : p.1 = allId
    · rw [h.zero hall, h'.zero hall]
    · exact hid hall
  · rintro ⟨hp, hid⟩
    have hone : ∀ p ∈ selectors, ∀ p' ∈ selectors, p.1 = p'.1 → p = p' := by decide
    rw [hone p h.mem p' h'.mem hp, hid]

/-! ## Types and rights -/

/-- A list of flags, each of which is one bit of the word. -/
theorem agree_bitsOf {α : Type*} (f : α → BitVec 64) (l : List α)
    (hbit : ∀ a ∈ l, ∃ k < 64, f a = BitVec.twoPow 64 k) {x y : BitVec 64} :
    (∀ a ∈ l, (x &&& f a ≠ 0 ↔ y &&& f a ≠ 0)) ↔
      Agree (l.foldr (fun a m => f a ||| m) 0) x y := by
  induction l with
  | nil =>
    rw [List.foldr_nil]
    refine ⟨fun _ => ?_, fun _ _ h => absurd h List.not_mem_nil⟩
    show x &&& 0#64 = y &&& 0#64
    rw [BitVec.and_zero, BitVec.and_zero]
  | cons a l ih =>
    obtain ⟨⟨k, hk, ha⟩, hl⟩ := List.forall_mem_cons.mp hbit
    rw [List.forall_mem_cons, List.foldr_cons, agree_or, ih hl, ha, agree_twoPow hk, not_iff_not]

/-- The text of the flags of a word tells them. -/
theorem flags_agree {α : Type*} (f : α → BitVec 64) (name : α → String) (l : List α)
    (hbit : ∀ a ∈ l, ∃ k < 64, f a = BitVec.twoPow 64 k)
    (hne : ∀ a ∈ l, name a ≠ "") (hplus : ∀ a ∈ l, '+' ∉ (name a).toList)
    (hinj : ∀ a ∈ l, ∀ b ∈ l, name a = name b → a = b) {x y : BitVec 64} :
    ("+".intercalate ((l.filter fun a => x &&& f a ≠ 0).map name)).toList =
        ("+".intercalate ((l.filter fun a => y &&& f a ≠ 0).map name)).toList ↔
      Agree (l.foldr (fun a m => f a ||| m) 0) x y := by
  have hsub : ∀ (z : BitVec 64), "" ∉ (l.filter fun a => z &&& f a ≠ 0).map name ∧
      ∀ s ∈ (l.filter fun a => z &&& f a ≠ 0).map name, '+' ∉ s.toList := by
    intro z
    constructor
    · intro hmem
      obtain ⟨a, ha, hname⟩ := List.mem_map.mp hmem
      exact hne a (List.mem_of_mem_filter ha) hname
    · intro s hs
      obtain ⟨a, ha, rfl⟩ := List.mem_map.mp hs
      exact hplus a (List.mem_of_mem_filter ha)
  rw [← agree_bitsOf f l hbit]
  constructor
  · intro heq a ha
    have hnames := intercalate_inj (hsub x).1 (hsub y).1 (hsub x).2 (hsub y).2 heq
    have hone : ∀ {z z' : BitVec 64}, (l.filter fun a => z &&& f a ≠ 0).map name =
        (l.filter fun a => z' &&& f a ≠ 0).map name → z &&& f a ≠ 0 → z' &&& f a ≠ 0 := by
      intro z z' hmap hz
      have hmem : name a ∈ (l.filter fun a => z &&& f a ≠ 0).map name :=
        List.mem_map_of_mem (List.mem_filter.mpr ⟨ha, decide_eq_true hz⟩)
      rw [hmap] at hmem
      obtain ⟨b, hb, hname⟩ := List.mem_map.mp hmem
      obtain ⟨hbl, hbit'⟩ := List.mem_filter.mp hb
      rw [← hinj b hbl a ha hname]
      exact of_decide_eq_true hbit'
    exact ⟨hone hnames, hone hnames.symm⟩
  · intro hflags
    rw [List.filter_congr fun a ha => decide_eq_decide.mpr (hflags a ha)]

/-! ## The whole text -/

/-- The bits of a user and a zone that are shown: the selector and the identifier. -/
def shownSelector : BitVec 64 := 0x00000007FFFFFFFF

/-- The bits of a resource that are shown: all of them but the type ACL. -/
def shownResource : BitVec 64 := ~~~ ObjectType.acl.bits

/-- The bits of the rights that are shown. -/
def shownRights : BitVec 64 := 0xF

/-- The two rules have the same bits wherever the text shows them. -/
structure Shown (r r' : AclRule) : Prop where
  user : Agree shownSelector r.user r'.user
  resource : Agree shownResource r.resource r'.resource
  rights : Agree shownRights r.rights r'.rights
  zone : Agree shownSelector r.zone r'.zone

/-- The two rules have the same bits wherever the text does not show them. -/
structure Hidden (r r' : AclRule) : Prop where
  user : Agree (~~~ shownSelector) r.user r'.user
  resource : Agree ObjectType.acl.bits r.resource r'.resource
  rights : Agree (~~~ shownRights) r.rights r'.rights
  zone : Agree (~~~ shownSelector) r.zone r'.zone

theorem same_iff_shown : r.same r' = true ↔ Shown r r' ∧ Hidden r r' := by
  rw [same, decide_eq_true_iff]
  constructor
  · rintro ⟨hu, hr, hg, hz⟩
    constructor
    · constructor <;> simp only [Agree, hu, hr, hg, hz]
    · constructor <;> simp only [Agree, hu, hr, hg, hz]
  · rintro ⟨h, h'⟩
    exact ⟨eq_of_agree (by decide) h.user h'.user, eq_of_agree (by decide) h.resource h'.resource,
      eq_of_agree (by decide) h.rights h'.rights, eq_of_agree (by decide) h.zone h'.zone⟩

/-- The types in the text. -/
def typesText (r : AclRule) : Text :=
  ("+".intercalate ((poolObjects.filter fun t => r.resource &&& t.bits ≠ 0).map
    ObjectType.toStr)).toList

/-- The rights in the text. -/
def rightsText (r : AclRule) : Text :=
  ("+".intercalate ((authOperations.filter fun op => r.rights &&& op.code ≠ 0).map
    Operation.toStr)).toList

theorem toList_toStr (r : AclRule) : r.toStr.toList =
    (selectorStr r.user r.userId userMarks).toList ++ ' ' :: (r.typesText ++ '/' ::
      ((selectorStr r.resource r.resourceId resourceMarks).toList ++ ' ' :: (r.rightsText ++ ' ' ::
        (selectorStr r.zone r.zoneId zoneMarks).toList))) := by
  rw [toStr]
  simp only [String.toList_append, show " ".toList = [' '] from rfl, show "/".toList = ['/'] from rfl,
    List.append_assoc, List.singleton_append]
  rfl

theorem slash_notMem_typesText (r : AclRule) : '/' ∉ r.typesText := by
  have hnames : ∀ t ∈ poolObjects, '/' ∉ t.toStr.toList := by
    intro t _
    cases t <;> simp [ObjectType.toStr]
  rw [typesText, String.toList_intercalate]
  refine notMem_intercalate (by decide) _ fun s hs => ?_
  obtain ⟨name, hname, rfl⟩ := List.mem_map.mp hs
  obtain ⟨t, ht, rfl⟩ := List.mem_map.mp hname
  exact hnames t (List.mem_of_mem_filter ht)

theorem space_notMem_rightsText (r : AclRule) : ' ' ∉ r.rightsText := by
  have hnames : ∀ op ∈ authOperations, ' ' ∉ op.toStr.toList := by
    intro op _
    cases op <;> simp [Operation.toStr]
  rw [rightsText, String.toList_intercalate]
  refine notMem_intercalate (by decide) _ fun s hs => ?_
  obtain ⟨name, hname, rfl⟩ := List.mem_map.mp hs
  obtain ⟨op, hop, rfl⟩ := List.mem_map.mp hname
  exact hnames op (List.mem_of_mem_filter hop)

theorem typesText_eq_iff : r.typesText = r'.typesText ↔
    Agree (poolObjects.foldr (fun t m => t.bits ||| m) 0) r.resource r'.resource :=
  flags_agree ObjectType.bits ObjectType.toStr poolObjects (by decide +kernel) (by decide +kernel)
    (by decide) (by decide)

theorem rightsText_eq_iff : r.rightsText = r'.rightsText ↔ Agree shownRights r.rights r'.rights :=
  flags_agree Operation.code Operation.toStr authOperations (by decide) (by decide)
    (by decide) (by decide)

/-- Of the resource of an accepted rule the bits that the checks look at are clear. -/
theorem agree_wrong_type (h : r.WellFormed) (h' : r'.WellFormed) :
    Agree 0xFE80000000000000 r.resource r'.resource :=
  h.wrong_type.trans h'.wrong_type.symm

/-- **Two accepted rules have the same text if and only if they agree in the bits that are shown.** -/
theorem toStr_eq_iff (h : r.WellFormed) (h' : r'.WellFormed) : r.toStr = r'.toStr ↔ Shown r r' := by
  obtain ⟨pu, hu⟩ := marked_user h
  obtain ⟨pu', hu'⟩ := marked_user h'
  obtain ⟨pr, hr⟩ := marked_resource h
  obtain ⟨pr', hr'⟩ := marked_resource h'
  obtain ⟨pz, hz⟩ := marked_zone h
  obtain ⟨pz', hz'⟩ := marked_zone h'
  have huser := hu.agree hu'
  have hresource := hr.agree hr'
  have hzone := hz.agree hz'
  have hmasks : shownSelector = 0x700000000 ||| low 32 64 ∧
      shownResource = (poolObjects.foldr (fun t m => t.bits ||| m) 0 ||| 0xFE80000000000000) |||
        (0xF00000000 ||| low 32 64) := by
    decide
  rw [← String.toList_inj, toList_toStr, toList_toStr]
  constructor
  · intro heq
    obtain ⟨hsu, heq⟩ := append_cons_inj _ _ (hu.text ▸ space_notMem_markText hu.mem _)
      (hu'.text ▸ space_notMem_markText hu'.mem _) heq
    obtain ⟨htypes, heq⟩ := append_cons_inj _ _ (slash_notMem_typesText r) (slash_notMem_typesText r') heq
    obtain ⟨hsr, heq⟩ := append_cons_inj _ _ (hr.text ▸ space_notMem_markText hr.mem _)
      (hr'.text ▸ space_notMem_markText hr'.mem _) heq
    obtain ⟨hrights, hsz⟩ := append_cons_inj _ _ (space_notMem_rightsText r)
      (space_notMem_rightsText r') heq
    refine ⟨?_, ?_, rightsText_eq_iff.mp hrights, ?_⟩
    · rw [hmasks.1]
      exact huser.mp hsu
    · rw [hmasks.2, agree_or, agree_or]
      exact ⟨⟨typesText_eq_iff.mp htypes, agree_wrong_type h h'⟩, hresource.mp hsr⟩
    · rw [hmasks.1]
      exact hzone.mp hsz
  · rintro ⟨hsu, hsr, hrights, hsz⟩
    rw [hmasks.1] at hsu hsz
    rw [hmasks.2, agree_or, agree_or] at hsr
    have h₁ := huser.mpr hsu
    have h₂ := typesText_eq_iff.mpr hsr.1.1
    have h₃ := hresource.mpr hsr.2
    have h₄ := rightsText_eq_iff.mpr hrights
    have h₅ := hzone.mpr hsz
    unfold userId resourceId zoneId
    rw [h₁, h₂, h₃, h₄, h₅]

/-- **When the text of accepted rules tells them apart**: they have the same text only if they are
equal, exactly when they differ in a bit that is shown or have the same hidden bits. -/
theorem readable_iff (h : r.WellFormed) (h' : r'.WellFormed) :
    (r.toStr = r'.toStr → r.same r' = true) ↔ ¬ Shown r r' ∨ Hidden r r' := by
  rw [toStr_eq_iff h h', same_iff_shown]
  tauto

/-- A rule for the user 1 and all the machines of the zone 0. -/
def plainRule : AclRule :=
  ⟨0, individualId ||| 1, ObjectType.vm.bits ||| allId, Operation.use.code, individualId⟩

/-- The same rule for the user 2. -/
def otherRule : AclRule := { plainRule with user := individualId ||| 2 }

theorem readable_plainRule : (plainRule.toStr = otherRule.toStr → plainRule.same otherRule = true) ∧
    ¬ Shown plainRule otherRule := by
  have hshown : ¬ Shown plainRule otherRule := fun h => absurd h.user (by decide)
  exact ⟨(readable_iff (by decide) (by decide)).mpr (Or.inl hshown), hshown⟩

/-- Rules that differ from the plain rule in a bit of the user, of the resource, of the rights or of the
zone, and have its text. -/
theorem sameText_plainRule : ∀ r ∈ [{ plainRule with user := plainRule.user ||| 0x10000000000 },
      { plainRule with resource := plainRule.resource ||| ObjectType.acl.bits },
      { plainRule with rights := plainRule.rights ||| 0x8000000000000000 },
      { plainRule with zone := plainRule.zone ||| 0x800000000 }],
    r.WellFormed ∧ plainRule.toStr = r.toStr ∧ plainRule.same r = false := by
  decide

/-- Accepted rules with the same text are not always equal. -/
theorem not_readable :
    ¬ ∀ r r' : AclRule, r.WellFormed → r'.WellFormed → r.toStr = r'.toStr → r.same r' = true := by
  intro h
  obtain ⟨hwell, htext, hne⟩ := sameText_plainRule _ List.mem_cons_self
  rw [h plainRule _ (by decide) hwell htext] at hne
  exact absurd hne (by decide)

end AclRule
