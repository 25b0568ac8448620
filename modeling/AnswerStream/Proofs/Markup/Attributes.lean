import AnswerStream.Proofs.Markup.Origin

/-!
# Attributes

A browser finds the attributes of a tag in what stands between its brackets.
`attributes` reads them, quoted or not, and `addresses` collects those that a browser
follows or loads: the values of `href` and `src`.

The tags that are written are read back as they were written (`attributes_opening`), so an
attribute holds what was put into it and nothing that was put into it becomes another
attribute.  Of these tags only links and images have addresses (`addresses_unlinked`).
-/

namespace AnswerStream
namespace Markup

/-! ## Attributes -/

/-- Where a reader of attributes stands in a tag. -/
inductive AttributePlace where
  /-- Before an attribute. -/
  | between
  /-- In the name of one. -/
  | name (held : List Char)
  /-- After a name. -/
  | named (name : List Char)
  /-- After an equals sign. -/
  | equals (name : List Char)
  /-- In a value in quotes. -/
  | quoted (name : List Char) (quote : Char) (held : List Char)
  /-- In a value without quotes. -/
  | bare (name : List Char) (held : List Char)

/-- White space in a tag. -/
def isTagSpace (c : Char) : Bool := c == ' ' || c == '\t' || c == '\n' || c == '\x0c' || c == '\r'

/-- Attributes with their values, as a browser reads them.  What was read of a name or a value
is held with the latest character first. -/
def readAttributes : AttributePlace → List Char → List (List Char × List Char)
  | .between, [] => []
  | .name held, [] => [(held.reverse, [])]
  | .named name, [] => [(name, [])]
  | .equals name, [] => [(name, [])]
  | .quoted name _ held, [] => [(name, held.reverse)]
  | .bare name held, [] => [(name, held.reverse)]
  | .between, c :: cs =>
    if isTagSpace c || c == '/' then readAttributes .between cs else readAttributes (.name [c]) cs
  | .name held, c :: cs =>
    if c = '=' then readAttributes (.equals held.reverse) cs
    else if isTagSpace c then readAttributes (.named held.reverse) cs
    else if c = '/' then (held.reverse, []) :: readAttributes .between cs
    else readAttributes (.name (c :: held)) cs
  | .named name, c :: cs =>
    if c = '=' then readAttributes (.equals name) cs
    else if isTagSpace c then readAttributes (.named name) cs
    else if c = '/' then (name, []) :: readAttributes .between cs
    else (name, []) :: readAttributes (.name [c]) cs
  | .equals name, c :: cs =>
    if isTagSpace c then readAttributes (.equals name) cs
    else if c = '"' || c = '\'' then readAttributes (.quoted name c []) cs
    else readAttributes (.bare name [c]) cs
  | .quoted name quote held, c :: cs =>
    if c = quote then (name, held.reverse) :: readAttributes .between cs
    else readAttributes (.quoted name quote (c :: held)) cs
  | .bare name held, c :: cs =>
    if isTagSpace c then (name, held.reverse) :: readAttributes .between cs
    else readAttributes (.bare name (c :: held)) cs

/-- Whether a character ends the name of an element. -/
def endsName (c : Char) : Bool := isTagSpace c || c == '/'

/-- The attributes of a tag, given what stands between its brackets.  A closing tag has none. -/
def attributes : List Char → List (List Char × List Char)
  | '/' :: _ => []
  | inside => readAttributes .between (inside.dropWhile fun c => !endsName c)

/-- The name of an element, in lower case. -/
def elementName (inside : List Char) : List Char :=
  (inside.takeWhile fun c => !endsName c).map Char.toLower

/-! ## Addresses -/

/-- An address in markup. -/
structure Address where
  /-- Whether it is the source of an image. -/
  picture : Bool
  /-- The value of the attribute. -/
  value : List Char

/-- The address in an attribute, if it has one. -/
def addressOf (inside : List Char) (a : List Char × List Char) : Option Address :=
  if a.1.map Char.toLower = "href".toList then some { picture := false, value := a.2 }
  else if a.1.map Char.toLower = "src".toList then
    some { picture := elementName inside = "img".toList, value := a.2 }
  else none

/-- The addresses in a segment. -/
def Segment.addresses : Segment → List Address
  | .char _ => []
  | .tag inside => (attributes inside).filterMap (addressOf inside)

/-- The addresses in markup. -/
def addresses (m : List Char) : List Address := (segments m).flatMap Segment.addresses

/-! ## Reading back what was written -/

/-- A text that can name an element or an attribute. -/
def IsName (n : List Char) : Prop := n ≠ [] ∧ ∀ c ∈ n, c ≠ '=' ∧ endsName c = false

/-- The names of elements and attributes are names. -/
theorem isName_known : ∀ n ∈ Tag.bareNames ++ Tag.closedNames ++
    ["img", "class", "href", "target", "rel", "src", "alt"], IsName n.toList := by
  simp [Tag.bareNames, Tag.closedNames, IsName, endsName, isTagSpace]

theorem IsName.plain {n : List Char} (h : IsName n) :
    ∀ c ∈ n, c ≠ '=' ∧ isTagSpace c = false ∧ c ≠ '/' := by
  intro c hc
  obtain ⟨hequals, hends⟩ := h.2 c hc
  simpa [endsName, hequals] using hends

/-- The name of an attribute is read up to its equals sign. -/
theorem readAttributes_name (held : List Char) {n : List Char}
    (h : ∀ c ∈ n, c ≠ '=' ∧ isTagSpace c = false ∧ c ≠ '/') (rest : List Char) :
    readAttributes (.name held) (n ++ '=' :: rest) =
      readAttributes (.equals (held.reverse ++ n)) rest := by
  induction n generalizing held with
  | nil => simp [readAttributes]
  | cons c n ih =>
    obtain ⟨⟨hequals, hspace, hslash⟩, hrest⟩ := List.forall_mem_cons.1 h
    rw [List.cons_append, readAttributes, if_neg hequals, if_neg (by simp [hspace]),
      if_neg hslash, ih _ hrest]
    simp

/-- A value is read up to its quote. -/
theorem readAttributes_quoted (name held : List Char) {v : List Char} (h : ∀ c ∈ v, c ≠ '"')
    (rest : List Char) :
    readAttributes (.quoted name '"' held) (v ++ '"' :: rest) =
      (name, held.reverse ++ v) :: readAttributes .between rest := by
  induction v generalizing held with
  | nil => simp [readAttributes]
  | cons c v ih =>
    obtain ⟨hquote, hrest⟩ := List.forall_mem_cons.1 h
    rw [List.cons_append, readAttributes, if_neg hquote, ih _ hrest]
    simp

/-- An attribute is read back as it was written. -/
theorem readAttributes_attributeText {a : String × List Char} (hn : IsName a.1.toList)
    (hv : Tag.Quotable a.2) (rest : List Char) :
    readAttributes .between (Tag.attributeText a ++ rest) =
      (a.1.toList, a.2) :: readAttributes .between rest := by
  obtain ⟨name, value⟩ := a
  have hplain := hn.plain
  have htext : Tag.attributeText (name, value) ++ rest =
      ' ' :: (name.toList ++ '=' :: '"' :: (value ++ '"' :: rest)) := by
    simp [Tag.attributeText]
  obtain ⟨c, n, hname⟩ := List.exists_cons_of_ne_nil hn.1
  rw [hname] at hplain
  obtain ⟨⟨_, hspace, hslash⟩, hrest⟩ := List.forall_mem_cons.1 hplain
  rw [htext, hname, List.cons_append, readAttributes, if_pos (by decide), readAttributes,
    if_neg (by simp [hspace, hslash]), readAttributes_name [c] hrest, readAttributes,
    if_neg (by decide), if_pos (by decide),
    readAttributes_quoted _ [] fun c hc => (hv c hc).1]
  rfl

/-- An element with its attributes is read back as it was written. -/
theorem readAttributes_opening {as : List (String × List Char)}
    (h : ∀ a ∈ as, IsName a.1.toList ∧ Tag.Quotable a.2) :
    readAttributes .between (as.flatMap Tag.attributeText) =
      as.map fun a => (a.1.toList, a.2) := by
  induction as with
  | nil => rfl
  | cons a as ih =>
    obtain ⟨⟨hname, hvalue⟩, hrest⟩ := List.forall_mem_cons.1 h
    rw [List.flatMap_cons, readAttributes_attributeText hname hvalue, ih hrest, List.map_cons]

/-- The name of an element ends where its attributes start. -/
theorem span_opening {name : String} (hn : IsName name.toList) (as : List (String × List Char)) :
    (Tag.opening name as).inside.takeWhile (fun c => !endsName c) = name.toList ∧
      (Tag.opening name as).inside.dropWhile (fun c => !endsName c) =
        as.flatMap Tag.attributeText := by
  have hname : ∀ c ∈ name.toList, (!endsName c) = true := fun c hc => by simp [(hn.2 c hc).2]
  have hends : (as.flatMap Tag.attributeText).takeWhile (fun c => !endsName c) = [] ∧
      (as.flatMap Tag.attributeText).dropWhile (fun c => !endsName c) =
        as.flatMap Tag.attributeText := by
    cases as with
    | nil => exact ⟨rfl, rfl⟩
    | cons a as => exact ⟨rfl, rfl⟩
  rw [Tag.inside, List.takeWhile_append_of_pos hname, List.dropWhile_append_of_pos hname, hends.1,
    hends.2, List.append_nil]
  exact ⟨rfl, rfl⟩

/-- **A tag has the attributes that it was written with.** -/
theorem attributes_opening {name : String} {as : List (String × List Char)}
    (hn : IsName name.toList) (h : ∀ a ∈ as, IsName a.1.toList ∧ Tag.Quotable a.2) :
    attributes (Tag.opening name as).inside = as.map fun a => (a.1.toList, a.2) := by
  have hread : attributes (Tag.opening name as).inside =
      readAttributes .between ((Tag.opening name as).inside.dropWhile fun c => !endsName c) := by
    unfold attributes
    split
    · -- a name does not start with a slash
      rename_i heq
      obtain ⟨c, n, hname⟩ := List.exists_cons_of_ne_nil hn.1
      rw [Tag.inside, hname, List.cons_append] at heq
      have hslash := (hn.plain c (by rw [hname]; exact List.mem_cons_self ..)).2.2
      exact absurd (List.cons.inj heq).1 hslash
    · rfl
  rw [hread, (span_opening hn as).2, readAttributes_opening h]

theorem elementName_opening {name : String} (hn : IsName name.toList)
    (as : List (String × List Char)) :
    elementName (Tag.opening name as).inside = name.toList.map Char.toLower := by
  rw [elementName, (span_opening hn as).1]

/-! ## The addresses of tags that are written -/

/-- The addresses of a tag are those of the attributes that it was written with. -/
theorem addresses_opening {name : String} {as : List (String × List Char)}
    (hn : IsName name.toList) (h : ∀ a ∈ as, IsName a.1.toList ∧ Tag.Quotable a.2) :
    (Segment.tag (Tag.opening name as).inside).addresses =
      (as.map fun a => (a.1.toList, a.2)).filterMap (addressOf (Tag.opening name as).inside) := by
  rw [Segment.addresses, attributes_opening hn h]

/-- An attribute of another name has no address. -/
theorem addressOf_other (inside value : List Char) {name : List Char}
    (h : name.map Char.toLower ≠ "href".toList ∧ name.map Char.toLower ≠ "src".toList) :
    addressOf inside (name, value) = none := by
  rw [addressOf, if_neg h.1, if_neg h.2]

theorem addressOf_href (inside value : List Char) :
    addressOf inside ("href".toList, value) = some { picture := false, value } := by
  have hname : "href".toList.map Char.toLower = "href".toList := by decide
  rw [addressOf, if_pos hname]

theorem addressOf_src (inside value : List Char) :
    addressOf inside ("src".toList, value) =
      some { picture := elementName inside = "img".toList, value } := by
  have hname : "src".toList.map Char.toLower = "src".toList := by decide
  have hother : "src".toList.map Char.toLower ≠ "href".toList := by decide
  rw [addressOf, if_neg hother, if_pos hname]

/-- A class is no address. -/
theorem addresses_class {name : String} {value : List Char} (hn : IsName name.toList)
    (hv : Tag.Quotable value) :
    (Segment.tag (Tag.opening name [("class", value)]).inside).addresses = [] := by
  have hclass := isName_known "class" (by decide)
  have hother := addressOf_other (Tag.opening name [("class", value)]).inside value
    (by decide : "class".toList.map Char.toLower ≠ "href".toList ∧
      "class".toList.map Char.toLower ≠ "src".toList)
  rw [addresses_opening hn (by simpa using ⟨hclass, hv⟩), List.map_singleton,
    List.filterMap_cons_none hother, List.filterMap_nil]

/-- **Only links and images have addresses.** -/
theorem addresses_unlinked {t : Tag} (h : t.Known) (hun : t.Unlinked) :
    (Segment.tag t.inside).addresses = [] := by
  cases h with
  | bare h =>
    rw [addresses_opening (isName_known _ (by simp [h])) (by simp)]
    rfl
  | closing h => rfl
  | fixed h =>
    have hname := (by decide : ∀ p ∈ Tag.classes, p.1 ∈ Tag.closedNames) _ h
    exact addresses_class (isName_known _ (by simp [hname]))
      (Tag.quotable_fixed _ (List.mem_append_left _ (List.mem_map_of_mem h)))
  | role r => exact addresses_class (isName_known _ (by decide)) (Tag.quotable_cls r)
  | code h =>
    exact addresses_class (isName_known _ (by decide))
      ((Tag.quotable_fixed _ (by decide)).append (Tag.quotable_label h))
  | anchor h => exact absurd rfl hun.1
  | image ha ht => exact absurd rfl hun.2

/-- The address of a link is where it leads. -/
theorem Link.addresses_anchor {l : Link} (h : Tag.Quotable l.address) :
    (Segment.tag l.anchor.inside).addresses = [{ picture := false, value := l.address }] := by
  rw [anchor, addresses_opening (isName_known _ (by decide))]
  · simp only [List.map_cons, List.map_nil]
    rw [List.filterMap_cons_some (addressOf_href ..),
      List.filterMap_cons_none (addressOf_other _ _ ⟨by decide, by decide⟩),
      List.filterMap_cons_none (addressOf_other _ _ ⟨by decide, by decide⟩), List.filterMap_nil]
  · simp only [List.forall_mem_cons, List.not_mem_nil, false_implies, implies_true, and_true]
    exact ⟨⟨isName_known "href" (by decide), h⟩,
      ⟨isName_known _ (by decide), Tag.quotable_fixed _ (by decide)⟩,
      ⟨isName_known _ (by decide), Tag.quotable_fixed _ (by decide)⟩⟩

/-- The address of an image is its source, whatever text it has. -/
theorem Link.addresses_picture {l : Link} (h : Tag.Quotable l.address)
    (ht : Tag.Quotable (alternative l.label)) :
    (Segment.tag l.picture.inside).addresses = [{ picture := true, value := l.address }] := by
  have hname := isName_known "img" (by decide)
  rw [picture, addresses_opening hname]
  · have himg : "img".toList.map Char.toLower = "img".toList := by decide
    simp only [List.map_cons, List.map_nil]
    rw [List.filterMap_cons_some (addressOf_src ..), elementName_opening hname, himg,
      List.filterMap_cons_none (addressOf_other _ _ ⟨by decide, by decide⟩), List.filterMap_nil]
    simp
  · simp only [List.forall_mem_cons, List.not_mem_nil, false_implies, implies_true, and_true]
    exact ⟨⟨isName_known "src" (by decide), h⟩, ⟨isName_known "alt" (by decide), ht⟩⟩

end Markup
end AnswerStream
