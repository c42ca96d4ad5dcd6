/-
# Attributes as XML text (`Attribute::to_xml`, `one_util::escape_xml`)

The objects are stored as XML.  An attribute is an element; its value is written in a CDATA section
without any change, so the text is the one of a document only when the names are names of XML and no
value has the end of a section (or a character that XML does not have).  `Storable` is that condition.

The parser is not part of the program.  `StandardXml` says what is expected of it: a document made of
storable attributes is read as its elements, whose values are the ones that were written.  A value that
is empty may be read as no node at all.  `standardXml_plainParse` shows that a parser for elements and
CDATA sections alone meets it.
-/
import OpenNebula.TextNumber

/-! ## Documents -/

/-- The nodes of a document that the program looks at. -/
inductive XmlNode
  | element (name : Text) (children : List XmlNode)
  | text (content : Text)
  | cdata (content : Text)
  | other

namespace XmlText

/-- The start of a CDATA section. -/
def cdataStart : Text := "<![CDATA[".toList

/-- The end of a CDATA section. -/
def cdataEnd : Text := "]]>".toList

/-- `one_util::escape_xml`. -/
def escapeXml (value : Text) : Text := cdataStart ++ value ++ cdataEnd

/-- An element with its contents. -/
def elementText (name body : Text) : Text :=
  '<' :: name ++ '>' :: body ++ '<' :: '/' :: name ++ ['>']

/-- What an attribute is written from: a value, or the names and values of a vector. -/
inductive Item
  | single (name value : Text)
  | vector (name : Text) (entries : List (Text × Text))
  deriving DecidableEq

/-- `VectorAttribute::to_xml` leaves an entry without a name out. -/
def entryText (e : Text × Text) : Text :=
  if e.1.isEmpty then [] else elementText e.1 (escapeXml e.2)

/-- `SingleAttribute::to_xml` and `VectorAttribute::to_xml`. -/
def itemText : Item → Text
  | .single name value => elementText name (escapeXml value)
  | .vector name entries => elementText name (entries.flatMap entryText)

/-- A document: the attributes inside one element. -/
def documentText (root : Text) (items : List Item) : Text := elementText root (items.flatMap itemText)

/-! ## What can be stored -/

/-- A character that a name of XML starts with; the colon is left out, because of the namespaces. -/
def isNameStart (c : Char) : Bool :=
  let n := c.toNat
  (65 ≤ n && n ≤ 90) || n == 95 || (97 ≤ n && n ≤ 122) || (0xC0 ≤ n && n ≤ 0xD6) ||
  (0xD8 ≤ n && n ≤ 0xF6) || (0xF8 ≤ n && n ≤ 0x2FF) || (0x370 ≤ n && n ≤ 0x37D) ||
  (0x37F ≤ n && n ≤ 0x1FFF) || (0x200C ≤ n && n ≤ 0x200D) || (0x2070 ≤ n && n ≤ 0x218F) ||
  (0x2C00 ≤ n && n ≤ 0x2FEF) || (0x3001 ≤ n && n ≤ 0xD7FF) || (0xF900 ≤ n && n ≤ 0xFDCF) ||
  (0xFDF0 ≤ n && n ≤ 0xFFFD) || (0x10000 ≤ n && n ≤ 0xEFFFF)

/-- A character of a name of XML. -/
def isNameChar (c : Char) : Bool :=
  let n := c.toNat
  isNameStart c || n == 45 || n == 46 || (48 ≤ n && n ≤ 57) || n == 0xB7 ||
  (0x300 ≤ n && n ≤ 0x36F) || (0x203F ≤ n && n ≤ 0x2040)

/-- A name of XML. -/
def isName : Text → Bool
  | [] => false
  | c :: t => isNameStart c && t.all isNameChar

/-- A character of XML that is read as it is: a carriage return is read as a line feed. -/
def isXmlChar (c : Char) : Bool :=
  let n := c.toNat
  n == 9 || n == 10 || (0x20 ≤ n && n ≤ 0xFFFD) || 0x10000 ≤ n

/-- The text has the end of a CDATA section. -/
def hasEnd : Text → Bool
  | ']' :: ']' :: '>' :: _ => true
  | _ :: t => hasEnd t
  | [] => false

/-- A value that can be stored in a CDATA section. -/
def isValue (t : Text) : Bool := t.all isXmlChar && !hasEnd t

/-- **The attributes that can be stored.** -/
def Storable : Item → Prop
  | .single name value => isName name = true ∧ isValue value = true
  | .vector name entries =>
    isName name = true ∧ ∀ e ∈ entries, isName e.1 = true ∧ isValue e.2 = true

/-! ## The parser -/

/-- The nodes that the section of a value is read as. -/
inductive ReadsValue : Text → List XmlNode → Prop
  | value {v : Text} (h : v ≠ []) : ReadsValue v [.cdata v]
  | nothing : ReadsValue [] []
  | empty : ReadsValue [] [.cdata []]

/-- The node of an entry. -/
def ReadsEntry (e : Text × Text) (n : XmlNode) : Prop :=
  ∃ children, n = .element e.1 children ∧ ReadsValue e.2 children

/-- The node of an attribute. -/
inductive Reads : Item → XmlNode → Prop
  | single {name value : Text} {children : List XmlNode} (h : ReadsValue value children) :
      Reads (.single name value) (.element name children)
  | vector {name : Text} {entries : List (Text × Text)} {children : List XmlNode}
      (h : List.Forall₂ ReadsEntry entries children) :
      Reads (.vector name entries) (.element name children)

/-- **A standard XML parser**: a document of attributes that can be stored is read as their nodes. -/
def StandardXml (parse : Text → Option XmlNode) : Prop :=
  ∀ root items, isName root = true → (∀ i ∈ items, Storable i) →
    ∃ nodes, parse (documentText root items) = some (.element root nodes) ∧
      List.Forall₂ Reads items nodes

/-! ## A parser for elements and CDATA sections -/

/-- A CDATA section up to its end, and what comes after it. -/
def untilEnd : Text → Option (Text × Text)
  | ']' :: ']' :: '>' :: s => some ([], s)
  | c :: s => (untilEnd s).map fun r => (c :: r.1, r.2)
  | [] => none

/-- The nodes in front of an end tag, and what comes after them. -/
def parseNodes : ℕ → Text → Option (List XmlNode × Text)
  | 0, _ => none
  | _ + 1, '<' :: '/' :: s => some ([], '<' :: '/' :: s)
  | fuel + 1, '<' :: '!' :: '[' :: 'C' :: 'D' :: 'A' :: 'T' :: 'A' :: '[' :: s => do
    let (value, s) ← untilEnd s
    let (nodes, s) ← parseNodes fuel s
    return (.cdata value :: nodes, s)
  | fuel + 1, '<' :: s => do
    let name := s.takeWhile (· ≠ '>')
    let (children, s) ← parseNodes fuel (s.drop (name.length + 1))
    let (nodes, s) ← parseNodes fuel (s.drop (name.length + 3))
    return (.element name children :: nodes, s)
  | _ + 1, s => some ([], s)

/-- The element of a document. -/
def plainParse (s : Text) : Option XmlNode :=
  match parseNodes (s.length + 1) s with
  | some ([node], []) => some node
  | _ => none

theorem untilEnd_append {v : Text} (h : hasEnd v = false) (s : Text) :
    untilEnd (v ++ cdataEnd ++ s) = some (v, s) := by
  induction v with
  | nil => rfl
  | cons c v ih =>
    have hv : hasEnd v = false := by
      unfold hasEnd at h
      split at h
      · exact absurd h (by decide)
      · rename_i heq
        rw [(List.cons.inj heq).2]
        exact h
      · rename_i heq
        exact absurd heq (List.cons_ne_nil _ _)
    have hnext := ih hv
    rw [List.cons_append, List.cons_append]
    unfold untilEnd
    split
    · -- an end that starts here would be inside the value
      rename_i t heq
      obtain ⟨hc, htail⟩ := List.cons.inj heq
      rcases v with _ | ⟨a, _ | ⟨b, v⟩⟩
      · have hsecond := (List.cons.inj (List.cons.inj htail).2).1
        exact absurd hsecond (by decide)
      · have hsecond := (List.cons.inj (List.cons.inj htail).2).1
        exact absurd hsecond (by decide)
      · obtain ⟨ha, htail⟩ := List.cons.inj htail
        obtain ⟨hb, -⟩ := List.cons.inj htail
        subst hc ha hb
        exact absurd h (by simp [hasEnd])
    · rename_i d t heq
      obtain ⟨rfl, rfl⟩ := List.cons.inj heq
      rw [hnext]
      rfl
    · rename_i heq
      exact absurd heq (List.cons_ne_nil _ _)

/-! ### Reading back -/

/-- The nodes that an attribute is written from, with a section for each value. -/
def itemNode : Item → XmlNode
  | .single name value => .element name [.cdata value]
  | .vector name entries => .element name (entries.map fun e => .element e.1 [.cdata e.2])

theorem mem_of_isName {name : Text} (h : isName name = true) :
    ∃ c t, name = c :: t ∧ isNameStart c = true ∧ ∀ d ∈ name, isNameChar d = true := by
  match name, h with
  | c :: t, h =>
    rw [isName, Bool.and_eq_true, List.all_eq_true] at h
    refine ⟨c, t, rfl, h.1, ?_⟩
    intro d hd
    rcases List.mem_cons.mp hd with rfl | hd
    · rw [isNameChar, h.1]
      rfl
    · exact h.2 d hd

theorem notMem_name {name : Text} (h : isName name = true) : '>' ∉ name := by
  intro hmem
  obtain ⟨-, -, -, -, hall⟩ := mem_of_isName h
  exact absurd (hall '>' hmem) (by decide)

theorem takeWhile_name {name : Text} (h : isName name = true) (s : Text) :
    (name ++ '>' :: s).takeWhile (· ≠ '>') = name := by
  rw [List.takeWhile_append_of_pos, List.takeWhile_cons_of_neg (by simp), List.append_nil]
  intro c hc
  have hne : c ≠ '>' := fun heq => notMem_name h (heq ▸ hc)
  simpa using hne

theorem drop_name (name s : Text) (n : ℕ) :
    (name ++ s).drop (name.length + n) = s.drop n := by
  rw [← List.drop_drop, List.drop_left]

/-- An element in front of its siblings. -/
theorem parseNodes_element {name body s : Text} {fuel : ℕ} (hname : isName name = true)
    {children nodes : List XmlNode} {rest : Text}
    (hbody : parseNodes fuel (body ++ '<' :: '/' :: name ++ '>' :: s) =
      some (children, '<' :: '/' :: name ++ '>' :: s))
    (hnext : parseNodes fuel s = some (nodes, rest)) :
    parseNodes (fuel + 1) (elementText name body ++ s) =
      some (.element name children :: nodes, rest) := by
  obtain ⟨c, t, hcons, hstart, -⟩ := mem_of_isName hname
  have hslash : c ≠ '/' := by
    rintro rfl
    exact absurd hstart (by decide)
  have hbang : c ≠ '!' := by
    rintro rfl
    exact absurd hstart (by decide)
  have htext : elementText name body ++ s =
      '<' :: (name ++ '>' :: (body ++ '<' :: '/' :: name ++ '>' :: s)) := by
    simp [elementText]
  rw [htext]
  generalize hin : body ++ '<' :: '/' :: name ++ '>' :: s = inside at hbody
  have htag : name ++ '>' :: inside = c :: (t ++ '>' :: inside) := by rw [hcons, List.cons_append]
  have hchildren : (name ++ '>' :: inside).drop (name.length + 1) = inside := drop_name _ _ 1
  have hsiblings : ('<' :: '/' :: name ++ '>' :: s).drop (name.length + 3) = s := by
    rw [show name.length + 3 = ('<' :: '/' :: name).length + 1 from rfl]
    exact drop_name _ _ 1
  have hwhile := takeWhile_name hname inside
  rw [htag] at hwhile hchildren ⊢
  rw [parseNodes.eq_4 _ _ (fun s' heq => hslash (List.cons.inj heq).1)
    (fun s' heq => hbang (List.cons.inj heq).1)]
  dsimp only
  rw [hwhile, hchildren, hbody, Option.bind_eq_bind, Option.bind_some, hsiblings, hnext]
  rfl

theorem cdataStart_eq : cdataStart = ['<', '!', '[', 'C', 'D', 'A', 'T', 'A', '['] := by
  decide +kernel

/-- A CDATA section in front of its siblings. -/
theorem parseNodes_cdata {value s : Text} {fuel : ℕ} (hvalue : isValue value = true)
    {nodes : List XmlNode} {rest : Text} (hnext : parseNodes fuel s = some (nodes, rest)) :
    parseNodes (fuel + 1) (escapeXml value ++ s) = some (.cdata value :: nodes, rest) := by
  have hend : hasEnd value = false := by
    rw [isValue, Bool.and_eq_true, Bool.not_eq_true'] at hvalue
    exact hvalue.2
  have htext : escapeXml value ++ s =
      '<' :: '!' :: '[' :: 'C' :: 'D' :: 'A' :: 'T' :: 'A' :: '[' :: (value ++ cdataEnd ++ s) := by
    simp only [escapeXml, cdataStart_eq, List.append_assoc, List.cons_append, List.nil_append]
  rw [htext, parseNodes, untilEnd_append hend, Option.bind_eq_bind, Option.bind_some]
  dsimp only
  rw [hnext]
  rfl

theorem parseNodes_end (fuel : ℕ) (s : Text) :
    parseNodes (fuel + 1) ('<' :: '/' :: s) = some ([], '<' :: '/' :: s) := by
  rw [parseNodes]

/-- An element with a value in front of its siblings. -/
theorem parseNodes_entry {name value s : Text} {fuel : ℕ} (hname : isName name = true)
    (hvalue : isValue value = true) {nodes : List XmlNode} {rest : Text}
    (hnext : parseNodes (fuel + 2) s = some (nodes, rest)) :
    parseNodes (fuel + 3) (elementText name (escapeXml value) ++ s) =
      some (.element name [.cdata value] :: nodes, rest) := by
  refine parseNodes_element hname ?_ hnext
  rw [List.append_assoc]
  exact parseNodes_cdata hvalue (parseNodes_end _ _)

theorem parseNodes_entries {entries : List (Text × Text)}
    (hentries : ∀ e ∈ entries, isName e.1 = true ∧ isValue e.2 = true) (fuel : ℕ) (s : Text) :
    parseNodes (fuel + entries.length + 2) (entries.flatMap entryText ++ '<' :: '/' :: s) =
      some (entries.map fun e => .element e.1 [.cdata e.2], '<' :: '/' :: s) := by
  induction entries with
  | nil => exact parseNodes_end _ _
  | cons e entries ih =>
    obtain ⟨hname, hvalue⟩ := hentries e List.mem_cons_self
    have hentry : entryText e = elementText e.1 (escapeXml e.2) := by
      obtain ⟨c, t, hcons, -, -⟩ := mem_of_isName hname
      rw [entryText, hcons]
      rfl
    rw [List.flatMap_cons, hentry, List.append_assoc, List.map_cons, List.length_cons]
    exact parseNodes_entry hname hvalue
      (ih fun e' he' => hentries e' (List.mem_cons_of_mem _ he'))

/-- How deep the parser goes for an attribute. -/
def Item.depth : Item → ℕ
  | .single _ _ => 3
  | .vector _ entries => entries.length + 3

theorem parseNodes_item {i : Item} (h : Storable i) {fuel : ℕ} (hfuel : i.depth ≤ fuel + 1) {s : Text}
    {nodes : List XmlNode} {rest : Text} (hnext : parseNodes fuel s = some (nodes, rest)) :
    parseNodes (fuel + 1) (itemText i ++ s) = some (itemNode i :: nodes, rest) := by
  cases i with
  | single name value =>
    obtain ⟨n, rfl⟩ := Nat.exists_eq_add_of_le (show 2 ≤ fuel by simpa [Item.depth] using hfuel)
    rw [Nat.add_comm 2 n] at hnext ⊢
    exact parseNodes_entry h.1 h.2 hnext
  | vector name entries =>
    refine parseNodes_element h.1 ?_ hnext
    obtain ⟨n, rfl⟩ := Nat.exists_eq_add_of_le
      (show entries.length + 2 ≤ fuel by simpa [Item.depth] using hfuel)
    rw [List.append_assoc, show entries.length + 2 + n = n + entries.length + 2 by omega]
    exact parseNodes_entries h.2 _ _

theorem parseNodes_items {items : List Item} (h : ∀ i ∈ items, Storable i) (fuel : ℕ)
    (hfuel : ∀ i ∈ items, i.depth ≤ fuel + 1) (s : Text) :
    parseNodes (fuel + items.length + 1) (items.flatMap itemText ++ '<' :: '/' :: s) =
      some (items.map itemNode, '<' :: '/' :: s) := by
  induction items with
  | nil => exact parseNodes_end _ _
  | cons i items ih =>
    rw [List.flatMap_cons, List.append_assoc, List.map_cons, List.length_cons]
    refine parseNodes_item (h i List.mem_cons_self) ?_
      (ih (fun j hj => h j (List.mem_cons_of_mem _ hj))
        (fun j hj => hfuel j (List.mem_cons_of_mem _ hj)))
    have := hfuel i List.mem_cons_self
    omega

theorem length_entryText {e : Text × Text} (h : isName e.1 = true) : 1 ≤ (entryText e).length := by
  obtain ⟨c, t, hcons, -, -⟩ := mem_of_isName h
  rw [entryText, hcons]
  exact Nat.succ_le_succ (Nat.zero_le _)

/-- The parser does not go deeper than the text is long. -/
theorem depth_le_length {i : Item} (h : Storable i) : i.depth ≤ (itemText i).length := by
  cases i with
  | single name value =>
    simp only [Item.depth, itemText, elementText, List.length_append, List.length_cons]
    omega
  | vector name entries =>
    have hentries : entries.length ≤ (entries.flatMap entryText).length := by
      rw [List.length_flatMap, ← List.length_map (f := fun e => (entryText e).length)]
      refine List.length_le_sum_of_one_le _ ?_
      intro n hn
      obtain ⟨e, he, rfl⟩ := List.mem_map.mp hn
      exact length_entryText (h.2 e he).1
    simp only [Item.depth, itemText, elementText, List.length_append, List.length_cons]
    omega

theorem length_items {items : List Item} (h : ∀ i ∈ items, Storable i) :
    items.length ≤ (items.flatMap itemText).length ∧
      ∀ i ∈ items, i.depth + items.length ≤ (items.flatMap itemText).length + 1 := by
  induction items with
  | nil => exact ⟨le_refl _, fun i hi => absurd hi List.not_mem_nil⟩
  | cons j items ih =>
    obtain ⟨hlength, hdepth⟩ := ih fun i hi => h i (List.mem_cons_of_mem _ hi)
    have hj := depth_le_length (h j List.mem_cons_self)
    have hpos : 3 ≤ j.depth := by cases j <;> simp [Item.depth]
    rw [List.flatMap_cons, List.length_append, List.length_cons]
    refine ⟨by omega, ?_⟩
    intro i hi
    rcases List.mem_cons.mp hi with rfl | hi
    · omega
    · have := hdepth i hi
      omega

theorem plainParse_document {root : Text} {items : List Item} (hroot : isName root = true)
    (h : ∀ i ∈ items, Storable i) :
    plainParse (documentText root items) = some (.element root (items.map itemNode)) := by
  obtain ⟨hlength, hdepth⟩ := length_items h
  have hlen : (documentText root items).length =
      root.length + (items.flatMap itemText).length + root.length + 5 := by
    simp only [documentText, elementText, List.length_append, List.length_cons, List.length_nil]
    omega
  obtain ⟨fuel, hfuel⟩ : ∃ fuel, (documentText root items).length = fuel + items.length + 1 :=
    ⟨(documentText root items).length - items.length - 1, by omega⟩
  have hparse : parseNodes ((documentText root items).length + 1) (documentText root items ++ []) =
      some ([.element root (items.map itemNode)], []) := by
    refine parseNodes_element hroot ?_ ?_
    · rw [hfuel, List.append_assoc]
      refine parseNodes_items h fuel ?_ _
      intro i hi
      have := hdepth i hi
      omega
    · rw [hfuel]
      rfl
  rw [List.append_nil] at hparse
  rw [plainParse, hparse]

theorem readsValue_cdata (v : Text) : ReadsValue v [.cdata v] := by
  by_cases h : v = []
  · rw [h]
    exact .empty
  · exact .value h

/-- **A parser for elements and CDATA sections is a standard one.** -/
theorem standardXml_plainParse : StandardXml plainParse := by
  intro root items hroot h
  refine ⟨items.map itemNode, plainParse_document hroot h, ?_⟩
  rw [List.forall₂_map_right_iff, List.forall₂_same]
  intro i _
  cases i with
  | single name value => exact .single (readsValue_cdata value)
  | vector name entries =>
    refine .vector ?_
    rw [List.forall₂_map_right_iff, List.forall₂_same]
    intro e _
    exact ⟨[.cdata e.2], rfl, readsValue_cdata e.2⟩

end XmlText
