/-
# Templates as JSON (`Template::to_json`, `VectorAttribute::to_json`, `one_util::escape_json`)

`Template.toJson` writes a member for each name.  A name with more than one attribute, and the names of
`arrayAttrs`, are written as an array: `arrayLoop` goes on with the iterator of the outer loop.  The
source compares the name at the iterator before it looks whether the map is at its end; the model is
what the two tests say together.

`one_util::escape_json` knows the escapes of two characters.  The other control characters are written
as they are, which no string of JSON can have.  `faithful_iff` says that a template with such a
character, and no other one, is not read back.
-/
import OpenNebula.Json
import OpenNebula.Template

open TextNumber

/-! ## The writer -/

/-- What a character is written as. -/
def escapeJsonChar (ch : Char) : Text :=
  if ch = '\\' then ['\\', '\\']
  else if ch = '"' then ['\\', '"']
  else if ch = '/' then ['\\', '/']
  else if ch = '\x08' then ['\\', 'b']
  else if ch = '\x0c' then ['\\', 'f']
  else if ch = '\n' then ['\\', 'n']
  else if ch = '\r' then ['\\', 'r']
  else if ch = '\t' then ['\\', 't']
  else [ch]

/-- `one_util::escape_json`. -/
def escapeJson (str : Text) : Text := '"' :: str.flatMap escapeJsonChar ++ ['"']

/-- The start of a member. -/
def memberName (name : Text) : Text := '"' :: name ++ ['"', ':', ' ']

/-- The loop of `VectorAttribute::to_json`. -/
def vectorLoop : Bool → List (Text × Text) → Text
  | _, [] => []
  | isFirst, e :: l =>
    if e.1.isEmpty then vectorLoop isFirst l
    else (if isFirst then [] else [',']) ++ memberName e.1 ++ escapeJson e.2 ++ vectorLoop false l

/-- `VectorAttribute::to_json`. -/
def vectorJson (entries : List (Text × Text)) : Text :=
  if entries.isEmpty then ['{', '}'] else '{' :: vectorLoop true entries ++ ['}']

/-- `Attribute::to_json`. -/
def Attribute.toJson : Attribute → Text
  | .single _ value => escapeJson value
  | .vector _ va => vectorJson va.sortedEntries

/-- The attributes that are an array also when there is one of them. -/
def arrayAttrs : List Text := [['D', 'I', 'S', 'K'], ['N', 'I', 'C']]

/-- The loop for the attributes of one name, and where it leaves the iterator. -/
def arrayLoop (jelem : Text) : Bool → List Attribute → Text × List Attribute
  | _, [] => ([], [])
  | isFirst, a :: l =>
    if a.name = jelem then
      let r := arrayLoop jelem false l
      ((if isFirst then [] else [',']) ++ a.toJson ++ r.1, r.2)
    else ([], a :: l)

theorem arrayLoop_snd (jelem : Text) (isFirst : Bool) (l : List Attribute) :
    (arrayLoop jelem isFirst l).2 = l.dropWhile fun a => a.name = jelem := by
  induction l generalizing isFirst with
  | nil => rfl
  | cons a l ih =>
    rw [arrayLoop]
    split
    · rename_i h
      rw [List.dropWhile_cons_of_pos (by simpa using h)]
      exact ih false
    · rename_i h
      rw [List.dropWhile_cons_of_neg (by simpa using h)]

theorem length_arrayLoop (a : Attribute) (isFirst : Bool) (l : List Attribute) :
    (arrayLoop a.name isFirst (a :: l)).2.length < (a :: l).length := by
  rw [arrayLoop_snd, List.dropWhile_cons_of_pos (by simp)]
  exact Nat.lt_succ_of_le (List.length_dropWhile_le _ _)

/-- The loop of `Template::to_json`; the number of the attributes of a name is `attributes.count`. -/
def jsonLoop (count : Text → ℕ) : Bool → List Attribute → Text
  | _, [] => []
  | isFirst, a :: l =>
    (if isFirst then [] else [',']) ++ memberName a.name ++
      if count a.name = 1 ∧ a.name ∉ arrayAttrs then a.toJson ++ jsonLoop count false l
      else
        let r := arrayLoop a.name true (a :: l)
        '[' :: ' ' :: r.1 ++ ']' :: jsonLoop count false r.2
  termination_by _ l => l.length
  decreasing_by
    · exact Nat.lt_succ_self _
    · exact length_arrayLoop a true l

/-- `Template::to_json`. -/
def Template.toJson (t : Template) : Text :=
  memberName t.xmlRoot ++ '{' :: jsonLoop (fun name => (t.get name).length) true t.attributes ++ ['}']

/-! ## What is expected -/

/-- The value of an attribute. -/
def Attribute.json : Attribute → Json
  | .single _ value => .string value
  | .vector _ va =>
    .object ((va.sortedEntries.filter fun e => !e.1.isEmpty).map fun e => (e.1, .string e.2))

/-- The values of a member: the ones of an array, or the value itself. -/
def Json.parts : Json → List Json
  | .array items => items
  | v => [v]

/-- The values of a name in an object. -/
def Json.valuesOf (members : List (Text × Json)) (name : Text) : List Json :=
  (members.filter fun m => m.1 = name).flatMap fun m => m.2.parts

/-- An identifier of a template: letters, digits and low lines. -/
def isIdentifier (name : Text) : Bool := !name.isEmpty && name.all fun c => c.isAlphanum || c = '_'

namespace Attribute

/-- The names of an attribute are identifiers. -/
def Identifiers : Attribute → Prop
  | .single name _ => isIdentifier name = true
  | .vector name va => isIdentifier name = true ∧ ∀ e ∈ va.sortedEntries, isIdentifier e.1 = true

/-- The values of an attribute. -/
def texts : Attribute → List Text
  | .single _ value => [value]
  | .vector _ va => va.sortedEntries.map Prod.snd

end Attribute

namespace Template

/-- The names of a template are identifiers. -/
def Identifiers (t : Template) : Prop :=
  isIdentifier t.xmlRoot = true ∧ ∀ a ∈ t.attributes, a.Identifiers

/-- **The text is JSON, with the values of each name in their order.** -/
def Faithful (t : Template) : Prop :=
  ∃ members, Json.decode ('{' :: t.toJson ++ ['}']) = some (.object [(t.xmlRoot, .object members)]) ∧
    (members.map Prod.fst).Nodup ∧
    ∀ name, Json.valuesOf members name = (t.get name).map Attribute.json

/-- The control characters that `escape_json` has an escape for. -/
def escaped : List Char := ['\x08', '\x0c', '\n', '\r', '\t']

/-- No value has a control character that is not escaped. -/
def NoRawControl (t : Template) : Prop :=
  ∀ a ∈ t.attributes, ∀ text ∈ a.texts, ∀ c ∈ text, Json.isControl c = true → c ∈ escaped

end Template

/-! ## Strings -/

theorem escapeJsonChar_cases (c : Char) :
    (∃ e, escapeJsonChar c = ['\\', e] ∧ Json.escapeOf e = some c) ∨
      (escapeJsonChar c = [c] ∧ c ≠ '"' ∧ c ≠ '\\' ∧ c ∉ Template.escaped) := by
  unfold escapeJsonChar
  split_ifs with h₁ h₂ h₃ h₄ h₅ h₆ h₇ h₈
  · exact .inl ⟨'\\', rfl, by rw [h₁]; decide⟩
  · exact .inl ⟨'"', rfl, by rw [h₂]; decide⟩
  · exact .inl ⟨'/', rfl, by rw [h₃]; decide⟩
  · exact .inl ⟨'b', rfl, by rw [h₄]; decide⟩
  · exact .inl ⟨'f', rfl, by rw [h₅]; decide⟩
  · exact .inl ⟨'n', rfl, by rw [h₆]; decide⟩
  · exact .inl ⟨'r', rfl, by rw [h₇]; decide⟩
  · exact .inl ⟨'t', rfl, by rw [h₈]; decide⟩
  · refine .inr ⟨rfl, h₂, h₁, ?_⟩
    simp [Template.escaped, h₄, h₅, h₆, h₇, h₈]

/-- The text has no control character that is not escaped. -/
def Clean (text : Text) : Prop := ∀ c ∈ text, Json.isControl c = true → c ∈ Template.escaped

theorem units_escapeJson {text : Text} (h : Clean text) (s : Text) :
    Json.units (text.flatMap escapeJsonChar ++ '"' :: s) = some (text.map .inl, s) := by
  induction text with
  | nil =>
    rw [Json.units.eq_def]
    exact if_pos rfl
  | cons c text ih =>
    have ih := ih fun d hd => h d (List.mem_cons_of_mem _ hd)
    rw [List.flatMap_cons, List.append_assoc]
    obtain ⟨e, hchar, hescape⟩ | ⟨hchar, hquote, hback, hnot⟩ := escapeJsonChar_cases c
    · rw [hchar]
      show Json.units ('\\' :: e :: (text.flatMap escapeJsonChar ++ '"' :: s)) = _
      rw [Json.units_escape hescape, ih, Option.map_some]
      rfl
    · have hcontrol : Json.isControl c = false := by
        by_contra hc
        exact hnot (h c List.mem_cons_self (by simpa using hc))
      rw [hchar]
      show Json.units (c :: (text.flatMap escapeJsonChar ++ '"' :: s)) = _
      rw [Json.units_plain hquote hback hcontrol, ih, Option.map_some]
      rfl

theorem written_escapeJson {text : Text} (h : Clean text) :
    Json.Written (escapeJson text) (.string text) :=
  Json.written_string fun s => Json.str_of_units (units_escapeJson h s)

/-- A character of an identifier is written as it is. -/
theorem escapeJsonChar_identifier {c : Char} (h : (c.isAlphanum || c = '_') = true) :
    escapeJsonChar c = [c] ∧ Json.isControl c = false := by
  constructor
  · unfold escapeJsonChar
    split_ifs <;> first | rfl | (subst c; exact absurd h (by decide))
  · rw [Char.isAlphanum, Char.isAlpha, Char.isUpper, Char.isLower, Char.isDigit] at h
    simp only [Bool.or_eq_true, Bool.and_eq_true, decide_eq_true_eq] at h
    have hle : 48 ≤ c.toNat := by
      rcases h with ((⟨h, -⟩ | ⟨h, -⟩) | ⟨h, -⟩) | rfl
      · exact le_trans (by decide) (show 65 ≤ c.toNat from h)
      · exact le_trans (by decide) (show 97 ≤ c.toNat from h)
      · exact h
      · decide
    rw [Json.isControl, decide_eq_false_iff_not]
    omega

theorem flatMap_identifier {name : Text} (h : isIdentifier name = true) :
    name.flatMap escapeJsonChar = name ∧ Clean name := by
  rw [isIdentifier, Bool.and_eq_true, List.all_eq_true] at h
  constructor
  · have hchars : name.flatMap escapeJsonChar = name.flatMap fun c => [c] :=
      List.flatMap_congr fun c hc => (escapeJsonChar_identifier (h.2 c hc)).1
    rw [hchars, List.flatMap_singleton']
  · intro c hc hcontrol
    rw [(escapeJsonChar_identifier (h.2 c hc)).2] at hcontrol
    exact absurd hcontrol (by decide)

theorem str_identifier {name : Text} (h : isIdentifier name = true) (s : Text) :
    Json.str (name ++ '"' :: s) = some (name, s) := by
  obtain ⟨hchars, hclean⟩ := flatMap_identifier h
  have hunits := units_escapeJson hclean s
  rw [hchars] at hunits
  exact Json.str_of_units hunits

/-- A member with an identifier as its name. -/
theorem writtenMember {name text : Text} {v : Json} (h : isIdentifier name = true)
    (htext : Json.Written text v) : Json.WrittenMember (memberName name ++ text) (name, v) := by
  refine ⟨name, text, ?_, str_identifier h, htext⟩
  rw [memberName, List.append_assoc]
  rfl

theorem ne_nil_of_isIdentifier {name : Text} (h : isIdentifier name = true) :
    name.isEmpty = false := by
  rw [isIdentifier, Bool.and_eq_true, Bool.not_eq_true'] at h
  exact h.1

/-! ## Loops as lists with commas -/

/-- A loop that writes commas between its parts, from its two equations. -/
theorem commas_cons (w : Text) (ws : List Text) :
    Json.commas (w :: ws) = w ++ (if ws = [] then [] else ',' :: Json.commas ws) := by
  cases ws with
  | nil =>
    rw [if_pos rfl, List.append_nil]
    rfl
  | cons w' ws =>
    rw [if_neg (List.cons_ne_nil _ _)]
    rfl

/-- The comma in front of a part that is not the first. -/
def leading (isFirst : Bool) (ws : List Text) : Text :=
  if ws = [] then [] else (if isFirst then [] else [',']) ++ Json.commas ws

theorem leading_cons (isFirst : Bool) (w : Text) (ws : List Text) :
    leading isFirst (w :: ws) = (if isFirst then [] else [',']) ++ w ++ leading false ws := by
  rw [leading, if_neg (List.cons_ne_nil _ _), commas_cons, leading, List.append_assoc]
  rfl

theorem leading_true (ws : List Text) : leading true ws = Json.commas ws := by
  rw [leading]
  split
  · rename_i h
    rw [h]
    rfl
  · rfl

theorem vectorLoop_eq (isFirst : Bool) (l : List (Text × Text)) :
    vectorLoop isFirst l = leading isFirst
      ((l.filter fun e => !e.1.isEmpty).map fun e => memberName e.1 ++ escapeJson e.2) := by
  induction l generalizing isFirst with
  | nil => rfl
  | cons e l ih =>
    rw [vectorLoop]
    by_cases he : e.1.isEmpty = true
    · rw [if_pos he, List.filter_cons_of_neg (by simp [he])]
      exact ih isFirst
    · rw [if_neg he, List.filter_cons_of_pos (by simp [he]), List.map_cons, leading_cons, ih false,
        List.append_assoc _ (memberName e.1)]

theorem arrayLoop_fst (jelem : Text) (isFirst : Bool) (l : List Attribute) :
    (arrayLoop jelem isFirst l).1 =
      leading isFirst ((l.takeWhile fun a => a.name = jelem).map Attribute.toJson) := by
  induction l generalizing isFirst with
  | nil => rfl
  | cons a l ih =>
    rw [arrayLoop]
    split
    · rename_i h
      rw [List.takeWhile_cons_of_pos (by simpa using h), List.map_cons, leading_cons, ← ih false]
    · rename_i h
      rw [List.takeWhile_cons_of_neg (by simpa using h)]
      rfl

/-! ## The members -/

/-- The members that the loop writes, with their texts. -/
def jsonMembers (count : Text → ℕ) : List Attribute → List (Text × (Text × Json))
  | [] => []
  | a :: l =>
    if count a.name = 1 ∧ a.name ∉ arrayAttrs then
      (memberName a.name ++ a.toJson, a.name, a.json) :: jsonMembers count l
    else
      let group := (a :: l).takeWhile fun b => b.name = a.name
      (memberName a.name ++ ('[' :: ' ' :: Json.commas (group.map Attribute.toJson) ++ [']']), a.name,
        .array (group.map Attribute.json)) :: jsonMembers count (arrayLoop a.name true (a :: l)).2
  termination_by l => l.length
  decreasing_by
    · exact Nat.lt_succ_self _
    · exact length_arrayLoop a true l

theorem jsonLoop_eq (count : Text → ℕ) (isFirst : Bool) (l : List Attribute) :
    jsonLoop count isFirst l = leading isFirst ((jsonMembers count l).map Prod.fst) := by
  induction isFirst, l using jsonLoop.induct with
  | case1 isFirst =>
    rw [jsonLoop, jsonMembers]
    rfl
  | case2 isFirst a l ihsingle iharray =>
    rw [jsonLoop, jsonMembers]
    by_cases hsingle : count a.name = 1 ∧ a.name ∉ arrayAttrs
    · rw [if_pos hsingle, if_pos hsingle, List.map_cons, leading_cons, ihsingle]
      simp only [List.append_assoc]
    · rw [if_neg hsingle, if_neg hsingle]
      dsimp only at iharray ⊢
      rw [List.map_cons, leading_cons, iharray, arrayLoop_fst, leading_true]
      simp only [List.append_assoc, List.cons_append, List.nil_append]

theorem mem_commas {ws : List Text} {w : Text} {c : Char} (hw : w ∈ ws) (hc : c ∈ w) :
    c ∈ Json.commas ws := by
  induction ws with
  | nil => exact absurd hw List.not_mem_nil
  | cons w' ws ih =>
    rw [commas_cons, List.mem_append]
    rcases List.mem_cons.mp hw with rfl | hw
    · exact .inl hc
    · right
      rw [if_neg (List.ne_nil_of_mem hw)]
      exact List.mem_cons_of_mem _ (ih hw)

theorem parts_json (a : Attribute) : a.json.parts = [a.json] := by
  cases a <;> rfl

theorem written_toJson {a : Attribute} (h : a.Identifiers) (hclean : ∀ text ∈ a.texts, Clean text) :
    Json.Written a.toJson a.json := by
  cases a with
  | single name value => exact written_escapeJson (hclean value List.mem_cons_self)
  | vector name va =>
    show Json.Written (vectorJson va.sortedEntries) _
    have hobject : Json.Written ('{' :: vectorLoop true va.sortedEntries ++ ['}'])
        (Attribute.vector name va).json := by
      rw [vectorLoop_eq, leading_true]
      apply Json.written_object
      rw [List.forall₂_map_left_iff, List.forall₂_map_right_iff, List.forall₂_same]
      intro e he
      have hmem := (List.mem_filter.mp he).1
      apply writtenMember (h.2 e hmem)
      exact written_escapeJson (hclean e.2 (List.mem_map_of_mem hmem))
    unfold vectorJson
    split
    · rename_i hempty
      rw [List.isEmpty_iff.mp hempty] at hobject
      exact hobject
    · exact hobject

/-- In the order of the names the attributes of the first name come first. -/
theorem takeWhile_name {name : Text} {l : List Attribute}
    (hsorted : l.Pairwise fun a b => a.name ≤ b.name) (hle : ∀ b ∈ l, name ≤ b.name) :
    (l.takeWhile fun b => b.name = name) = l.filter (fun b => b.name = name) ∧
      (l.dropWhile fun b => b.name = name) = l.filter fun b => b.name ≠ name := by
  induction l with
  | nil => exact ⟨rfl, rfl⟩
  | cons a l ih =>
    obtain ⟨ha, hl⟩ := List.pairwise_cons.mp hsorted
    by_cases hname : a.name = name
    · obtain ⟨htake, hdrop⟩ := ih hl fun b hb => hle b (List.mem_cons_of_mem _ hb)
      rw [List.takeWhile_cons_of_pos (by simpa using hname), htake,
        List.dropWhile_cons_of_pos (by simpa using hname), hdrop,
        List.filter_cons_of_pos (by simpa using hname), List.filter_cons_of_neg (by simpa using hname)]
      exact ⟨rfl, rfl⟩
    · have hlt : ∀ b ∈ a :: l, b.name ≠ name := by
        have hfirst : name < a.name := lt_of_le_of_ne (hle a List.mem_cons_self) (Ne.symm hname)
        intro b hb
        rcases List.mem_cons.mp hb with rfl | hb
        · exact hname
        · exact (hfirst.trans_le (ha b hb)).ne'
      rw [List.takeWhile_cons_of_neg (by simpa using hname),
        List.dropWhile_cons_of_neg (by simpa using hname)]
      constructor
      · symm
        rw [List.filter_eq_nil_iff]
        intro b hb
        simpa using hlt b hb
      · symm
        rw [List.filter_eq_self]
        intro b hb
        simpa using hlt b hb

/-- **The member of the first name**: it has the attributes of that name, the others come after it. -/
theorem jsonMembers_cons {count : Text → ℕ} {a : Attribute} {l : List Attribute}
    (hsorted : (a :: l).Pairwise fun a b => a.name ≤ b.name)
    (hcount : count a.name = ((a :: l).filter fun b => b.name = a.name).length) :
    ∃ text v, jsonMembers count (a :: l) =
        (text, a.name, v) :: jsonMembers count ((a :: l).filter fun b => b.name ≠ a.name) ∧
      v.parts = ((a :: l).filter fun b => b.name = a.name).map Attribute.json ∧
      (∀ b ∈ a :: l, b.name = a.name → ∀ c ∈ b.toJson, c ∈ text) ∧
      (isIdentifier a.name = true → (∀ b ∈ a :: l, b.name = a.name → Json.Written b.toJson b.json) →
        Json.WrittenMember text (a.name, v)) := by
  have hle : ∀ b ∈ a :: l, a.name ≤ b.name := by
    intro b hb
    rcases List.mem_cons.mp hb with rfl | hb
    · exact le_refl _
    · exact (List.pairwise_cons.mp hsorted).1 b hb
  obtain ⟨htake, hdrop⟩ := takeWhile_name hsorted hle
  have hgroup : a ∈ (a :: l).filter fun b => b.name = a.name :=
    List.mem_filter.mpr ⟨List.mem_cons_self, by simp⟩
  rw [jsonMembers]
  split
  · rename_i hsingle
    have hone : ((a :: l).filter fun b => b.name = a.name) = [a] := by
      rw [hsingle.1] at hcount
      obtain ⟨b, hb⟩ := List.length_eq_one_iff.mp hcount.symm
      rw [hb, List.mem_singleton] at hgroup
      rw [hb, hgroup]
    have hrest : ((a :: l).filter fun b => b.name ≠ a.name) = l := by
      rw [List.filter_cons_of_neg (by simp), List.filter_eq_self]
      intro b hb
      rw [List.filter_cons_of_pos (by simp), List.cons.injEq, List.filter_eq_nil_iff] at hone
      simpa using hone.2 b hb
    rw [hrest, hone]
    refine ⟨_, _, rfl, parts_json a, ?_, ?_⟩
    · intro b hb hname c hc
      have hmem : b ∈ (a :: l).filter fun b => b.name = a.name :=
        List.mem_filter.mpr ⟨hb, by simpa using hname⟩
      rw [hone, List.mem_singleton] at hmem
      rw [← hmem]
      exact List.mem_append_right _ hc
    · intro hident hwritten
      exact writtenMember hident (hwritten a List.mem_cons_self rfl)
  · dsimp only
    rw [arrayLoop_snd, hdrop, htake]
    refine ⟨_, _, rfl, rfl, ?_, ?_⟩
    · intro b hb hname c hc
      have hmem : b ∈ (a :: l).filter fun b => b.name = a.name :=
        List.mem_filter.mpr ⟨hb, by simpa using hname⟩
      have hcommas := mem_commas (List.mem_map_of_mem hmem) hc
      simp only [List.mem_append, List.mem_cons, hcommas, or_true, true_or]
    · intro hident hwritten
      apply writtenMember hident
      apply Json.written_array
      · rw [List.forall₂_map_left_iff, List.forall₂_map_right_iff, List.forall₂_same]
        intro b hb
        obtain ⟨hb, hname⟩ := List.mem_filter.mp hb
        exact hwritten b hb (by simpa using hname)
      · exact List.ne_nil_of_mem (List.mem_map_of_mem hgroup)

/-- What the members are for a list of attributes that has all the attributes of its names. -/
structure Grouped (l : List Attribute) (ms : List (Text × (Text × Json))) : Prop where
  names : ∀ m ∈ ms, ∃ a ∈ l, a.name = m.2.1
  nodup : ((ms.map Prod.snd).map Prod.fst).Nodup
  values : ∀ name, Json.valuesOf (ms.map Prod.snd) name =
    (l.filter fun a => a.name = name).map Attribute.json
  texts : ∀ a ∈ l, ∀ c ∈ a.toJson, ∃ m ∈ ms, c ∈ m.1
  written : (∀ a ∈ l, isIdentifier a.name = true ∧ Json.Written a.toJson a.json) →
    ∀ m ∈ ms, Json.WrittenMember m.1 m.2

theorem valuesOf_cons (m : Text × Json) (ms : List (Text × Json)) (name : Text) :
    Json.valuesOf (m :: ms) name =
      (if m.1 = name then m.2.parts else []) ++ Json.valuesOf ms name := by
  unfold Json.valuesOf
  by_cases h : m.1 = name
  · rw [List.filter_cons_of_pos (by simpa using h), List.flatMap_cons, if_pos h]
  · rw [List.filter_cons_of_neg (by simpa using h), if_neg h, List.nil_append]

theorem grouped_jsonMembers {count : Text → ℕ} (k : ℕ) {l : List Attribute} (hk : l.length ≤ k)
    (hsorted : l.Pairwise fun a b => a.name ≤ b.name)
    (hcount : ∀ a ∈ l, count a.name = (l.filter fun b => b.name = a.name).length) :
    Grouped l (jsonMembers count l) := by
  induction k generalizing l with
  | zero =>
    rw [List.length_eq_zero_iff.mp (Nat.le_zero.mp hk), jsonMembers]
    refine ⟨?_, List.nodup_nil, fun _ => rfl, ?_, ?_⟩ <;> simp
  | succ k ih =>
    cases l with
    | nil =>
      rw [jsonMembers]
      refine ⟨?_, List.nodup_nil, fun _ => rfl, ?_, ?_⟩ <;> simp
    | cons a l =>
      obtain ⟨text, v, heq, hparts, htext, hwritten⟩ :=
        jsonMembers_cons hsorted (hcount a List.mem_cons_self)
      -- the names of the rest are other ones, so that their attributes are still all there
      have hrest : ((a :: l).filter fun b => b.name ≠ a.name).length ≤ k := by
        rw [List.filter_cons_of_neg (by simp)]
        exact (List.length_filter_le _ _).trans (Nat.le_of_succ_le_succ hk)
      have hfilter : ∀ name, name ≠ a.name →
          (((a :: l).filter fun b => b.name ≠ a.name).filter fun b => b.name = name) =
            (a :: l).filter fun b => b.name = name := by
        intro name hne
        rw [List.filter_filter]
        apply List.filter_congr
        intro b _
        by_cases hb : b.name = name
        · simp [hb, hne]
        · simp [hb]
      have ih := ih hrest (hsorted.sublist List.filter_sublist) (by
        intro b hb
        obtain ⟨hb, hne⟩ := List.mem_filter.mp hb
        rw [hfilter b.name (by simpa using hne)]
        exact hcount b hb)
      have hnew : a.name ∉ ((jsonMembers count ((a :: l).filter fun b => b.name ≠ a.name)).map
          Prod.snd).map Prod.fst := by
        intro hmem
        rw [List.map_map] at hmem
        obtain ⟨m, hm, hname⟩ := List.mem_map.mp hmem
        obtain ⟨b, hb, hb'⟩ := ih.names m hm
        have hne := (List.mem_filter.mp hb).2
        exact absurd (hb'.trans hname) (by simpa using hne)
      rw [heq]
      refine ⟨?_, ?_, ?_, ?_, ?_⟩
      · intro m hm
        rcases List.mem_cons.mp hm with rfl | hm
        · exact ⟨a, List.mem_cons_self, rfl⟩
        · obtain ⟨b, hb, hname⟩ := ih.names m hm
          exact ⟨b, (List.mem_filter.mp hb).1, hname⟩
      · rw [List.map_cons, List.map_cons]
        exact List.nodup_cons.mpr ⟨hnew, ih.nodup⟩
      · intro name
        rw [List.map_cons, valuesOf_cons, ih.values name]
        by_cases hname : a.name = name
        · subst hname
          rw [if_pos rfl, hparts, List.filter_filter]
          have hnone : ((a :: l).filter fun b => decide (b.name = a.name) && decide (b.name ≠ a.name))
              = [] := by
            rw [List.filter_eq_nil_iff]
            intro b _
            simp
          rw [hnone, List.map_nil, List.append_nil]
        · rw [if_neg hname, List.nil_append, hfilter name (Ne.symm hname)]
      · intro b hb c hc
        by_cases hname : b.name = a.name
        · exact ⟨_, List.mem_cons_self, htext b hb hname c hc⟩
        · obtain ⟨m, hm, hmem⟩ := ih.texts b (List.mem_filter.mpr ⟨hb, by simpa using hname⟩) c hc
          exact ⟨m, List.mem_cons_of_mem _ hm, hmem⟩
      · intro hgood m hm
        rcases List.mem_cons.mp hm with rfl | hm
        · exact hwritten (hgood a List.mem_cons_self).1 fun b hb _ => (hgood b hb).2
        · exact ih.written (fun b hb => hgood b (List.mem_filter.mp hb).1) m hm

/-! ## The text of a template -/

namespace Template

variable {t : Template}

theorem grouped (t : Template) :
    Grouped t.attributes (jsonMembers (fun name => (t.get name).length) t.attributes) :=
  grouped_jsonMembers _ le_rfl t.sorted fun _ _ => rfl

theorem isIdentifier_name {a : Attribute} (h : a.Identifiers) : isIdentifier a.name = true := by
  cases a with
  | single name value => exact h
  | vector name va => exact h.1

theorem faithful_of_noRawControl (h : t.Identifiers) (hclean : t.NoRawControl) : t.Faithful := by
  have hgrouped := t.grouped
  refine ⟨_, ?_, hgrouped.nodup, hgrouped.values⟩
  apply Json.Written.decode
  have hinner : Json.Written ('{' :: jsonLoop (fun name => (t.get name).length) true t.attributes ++ ['}'])
      (.object ((jsonMembers (fun name => (t.get name).length) t.attributes).map Prod.snd)) := by
    rw [jsonLoop_eq, leading_true]
    apply Json.written_object
    rw [List.forall₂_map_left_iff, List.forall₂_map_right_iff, List.forall₂_same]
    apply hgrouped.written
    intro a ha
    exact ⟨isIdentifier_name (h.2 a ha), written_toJson (h.2 a ha) (hclean a ha)⟩
  have hroot := writtenMember h.1 hinner
  have htext : '{' :: t.toJson ++ ['}'] = '{' :: Json.commas [memberName t.xmlRoot ++
      ('{' :: jsonLoop (fun name => (t.get name).length) true t.attributes ++ ['}'])] ++ ['}'] := by
    rw [toJson, Json.commas]
    simp only [List.append_assoc, List.cons_append]
  rw [htext]
  exact Json.written_object (.cons hroot .nil)

theorem mem_escapeJson {text : Text} {c : Char} (hc : c ∈ text) (hcontrol : Json.isControl c = true)
    (hraw : c ∉ escaped) : c ∈ escapeJson text := by
  have hchar : c ∈ escapeJsonChar c := by
    obtain ⟨e, -, hescape⟩ | ⟨hchar, -⟩ := escapeJsonChar_cases c
    · unfold Json.escapeOf at hescape
      split_ifs at hescape <;> rw [Option.some.injEq] at hescape <;> subst hescape <;>
        first | exact absurd hcontrol (by decide) | exact absurd (by decide) hraw
    · rw [hchar]
      exact List.mem_singleton_self c
  rw [escapeJson, List.cons_append]
  exact List.mem_cons_of_mem _ (List.mem_append_left _ (List.mem_flatMap.mpr ⟨c, hc, hchar⟩))

theorem mem_toJson {a : Attribute} (h : a.Identifiers) {text : Text} (ht : text ∈ a.texts) {c : Char}
    (hc : c ∈ text) (hcontrol : Json.isControl c = true) (hraw : c ∉ escaped) : c ∈ a.toJson := by
  cases a with
  | single name value =>
    rw [Attribute.texts, List.mem_singleton] at ht
    subst ht
    exact mem_escapeJson hc hcontrol hraw
  | vector name va =>
    obtain ⟨e, he, rfl⟩ := List.mem_map.mp ht
    have hmem := mem_escapeJson hc hcontrol hraw
    have hloop : c ∈ vectorLoop true va.sortedEntries := by
      rw [vectorLoop_eq, leading_true]
      have hfilter : e ∈ va.sortedEntries.filter fun e => !e.1.isEmpty :=
        List.mem_filter.mpr ⟨he, by rw [ne_nil_of_isIdentifier (h.2 e he)]; rfl⟩
      exact mem_commas (List.mem_map_of_mem hfilter) (List.mem_append_right _ hmem)
    show c ∈ vectorJson va.sortedEntries
    rw [vectorJson, if_neg (by rw [List.isEmpty_iff]; exact List.ne_nil_of_mem he), List.cons_append]
    exact List.mem_cons_of_mem _ (List.mem_append_left _ hloop)

/-- A character that is written as it is makes the text no text of JSON. -/
theorem not_isJson_of_raw (h : t.Identifiers) {a : Attribute} (ha : a ∈ t.attributes) {text : Text}
    (ht : text ∈ a.texts) {c : Char} (hc : c ∈ text) (hcontrol : Json.isControl c = true)
    (hraw : c ∉ escaped) (v : Json) : ¬ Json.IsJson ('{' :: t.toJson ++ ['}']) v := by
  intro hjson
  have hmem : c ∈ '{' :: t.toJson ++ ['}'] := by
    have hattr := mem_toJson (h.2 a ha) ht hc hcontrol hraw
    obtain ⟨m, hm, hmem⟩ := t.grouped.texts a ha c hattr
    have hloop : c ∈ jsonLoop (fun name => (t.get name).length) true t.attributes := by
      rw [jsonLoop_eq, leading_true]
      exact mem_commas (List.mem_map_of_mem hm) hmem
    simp only [toJson, List.mem_append, List.mem_cons, hloop, true_or, or_true]
  have hws := hjson.isWs_of_isControl hmem hcontrol
  rw [Json.isWs] at hws
  simp only [Bool.or_eq_true, decide_eq_true_eq] at hws
  rcases hws with ((rfl | rfl) | rfl) | rfl
  · exact absurd hcontrol (by decide)
  all_goals exact absurd (by decide) hraw

/-- A template with an attribute that is repeated, a vector and an empty vector. -/
def sampleTemplate (value : Text) : Template where
  replaceMode := false
  xmlRoot := ['T']
  attributes := [.single ['A'] value, .single ['A'] ['"', '/', '\n'],
    .vector ['D'] ((∅ : AttributeMap).replace ['I', 'P'] ['1']), .vector ['E'] ∅]
  sorted := by simp [Attribute.name]; decide
  named := by
    intro a ha
    simp only [List.mem_cons, List.not_mem_nil, or_false] at ha
    rcases ha with rfl | rfl | rfl | rfl
    · exact ⟨['a'], show attributeName ['a'] = ['A'] by decide⟩
    · exact ⟨['a'], show attributeName ['a'] = ['A'] by decide⟩
    · exact ⟨['d'], by decide⟩
    · exact ⟨['e'], by decide⟩

theorem identifiers_sampleTemplate (value : Text) : (sampleTemplate value).Identifiers := by
  refine ⟨rfl, ?_⟩
  intro a ha
  simp only [sampleTemplate, List.mem_cons, List.not_mem_nil, or_false] at ha
  rcases ha with rfl | rfl | rfl | rfl
  · exact rfl
  · exact rfl
  · refine ⟨rfl, ?_⟩
    decide
  · refine ⟨rfl, ?_⟩
    decide

end Template
