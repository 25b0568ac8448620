import AnswerStream.Highlight.Role
import AnswerStream.Markup.Segment
import AnswerStream.Text.Escape

/-!
# Markup made of known parts

Generated markup is a sequence of three kinds of parts: characters that mean
themselves, entities, and tags.  `MadeOf T m` says that `m` is such a sequence, that
no bracket and no ampersand stands in it for itself, and that its tags satisfy `T`.
It is kept by concatenation, which is how all markup here is built.

## The tags

The tags that are ever written are `Tag.Known`.  Three of them hold text that comes
from outside: the label of a fence in a class, and the address and the text of a link
or an image.  Neither kind of text can end the attribute it stands in, for it has no
quote, and none can end the tag.

## Reading markup back

`Markup.segments` reads tags by their brackets.  In markup that is made of parts it
finds the tags that were written and nothing else (`segments_source_append`).  This
is what lets a statement about the characters of markup be proved about its parts.
-/

namespace AnswerStream
namespace Markup

/-- A tag. -/
inductive Tag where
  /-- An opening tag with its attributes. -/
  | opening (name : String) (attributes : List (String × List Char))
  /-- A closing tag. -/
  | closing (name : String)

namespace Tag

/-- An attribute as it is written. -/
def attributeText (a : String × List Char) : List Char :=
  ' ' :: (a.1.toList ++ '=' :: '"' :: (a.2 ++ ['"']))

/-- What stands between the brackets of a tag. -/
def inside : Tag → List Char
  | opening name attributes => name.toList ++ attributes.flatMap attributeText
  | closing name => '/' :: name.toList

/-- A tag as it is written. -/
def source (t : Tag) : List Char := '<' :: (t.inside ++ ['>'])

/-- The elements whose opening tags have no attributes. -/
def bareNames : List String :=
  ["br", "hr", "code", "del", "strong", "em", "blockquote", "ul", "ol", "li", "table", "thead",
   "tr", "th", "td", "h1", "h2", "h3", "h4", "h5", "h6", "pre"]

/-- The elements that are closed. -/
def closedNames : List String :=
  ["code", "del", "strong", "em", "a", "blockquote", "ul", "ol", "li", "table", "thead", "tr",
   "th", "td", "h1", "h2", "h3", "h4", "h5", "h6", "pre", "div", "span", "button"]

/-- The elements that the scan inside a line writes. -/
def lineNames : List String := ["code", "del", "strong", "em"]

/-- The classes of a code block and of the cursor, each with its element. -/
def classes : List (String × String) :=
  [("div", "code-block"), ("div", "code-header"), ("span", "code-lang"),
   ("button", "copy-code"), ("span", "typing-cursor")]

/-- Text that can stand in an attribute and cannot leave it. -/
def Quotable (value : List Char) : Prop := ∀ c ∈ value, c ≠ '"' ∧ c ≠ '<' ∧ c ≠ '>'

/-- A character that the label of a fence may hold. -/
def LabelChar (c : Char) : Prop := c.isAlphanum = true ∨ c ∈ ['+', '#', '-', '_', '.']

/-- The tags that are ever written. -/
inductive Known : Tag → Prop
  | bare {name : String} (h : name ∈ bareNames) : Known (opening name [])
  | closing {name : String} (h : name ∈ closedNames) : Known (closing name)
  | fixed {name cls : String} (h : (name, cls) ∈ classes) :
    Known (opening name [("class", cls.toList)])
  | role (r : Highlight.Role) : Known (opening "span" [("class", r.cls.toList)])
  | code {label : List Char} (h : ∀ c ∈ label, LabelChar c) :
    Known (opening "code" [("class", "language-".toList ++ label)])
  | anchor {address : List Char} (h : Quotable address) :
    Known (opening "a" [("href", address), ("target", "_blank".toList),
      ("rel", "noopener noreferrer".toList)])
  | image {address text : List Char} (ha : Quotable address) (ht : Quotable text) :
    Known (opening "img" [("src", address), ("alt", text)])

/-- The tags that the scan inside a line writes. -/
inductive OfLine : Tag → Prop
  | opening {name : String} (h : name ∈ lineNames) : OfLine (opening name [])
  | closing {name : String} (h : name ∈ lineNames) : OfLine (closing name)

/-- The tags that a highlighter writes. -/
inductive OfCode : Tag → Prop
  | opening (r : Highlight.Role) : OfCode (opening "span" [("class", r.cls.toList)])
  | closing : OfCode (closing "span")

theorem OfLine.known {t : Tag} (h : OfLine t) : Known t := by
  rcases h with ⟨h⟩ | ⟨h⟩
  · exact .bare ((by decide : ∀ n ∈ lineNames, n ∈ bareNames) _ h)
  · exact .closing ((by decide : ∀ n ∈ lineNames, n ∈ closedNames) _ h)

theorem OfCode.known {t : Tag} (h : OfCode t) : Known t := by
  rcases h with ⟨r⟩ | _
  · exact .role r
  · exact .closing (by decide)

/-- A role is named by letters and a hyphen. -/
theorem quotable_cls (r : Highlight.Role) : Quotable r.cls.toList := by
  unfold Quotable
  cases r <;> simp [Highlight.Role.cls]

/-- Attributes with quotable values hold no bracket. -/
theorem not_bracket_attributeText {a : String × List Char}
    (hn : ∀ c ∈ a.1.toList, c ≠ '<' ∧ c ≠ '>') (hv : Quotable a.2) :
    ∀ c ∈ attributeText a, c ≠ '<' ∧ c ≠ '>' := by
  intro c hc
  simp only [attributeText, List.mem_cons, List.mem_append, List.not_mem_nil, or_false] at hc
  rcases hc with rfl | hc | rfl | rfl | hc | rfl
  · decide
  · exact hn c hc
  · decide
  · decide
  · exact (hv c hc).2
  · decide

/-- A name and attributes with quotable values hold no bracket. -/
theorem not_bracket_opening {name : String} {as : List (String × List Char)}
    (hn : ∀ c ∈ name.toList, c ≠ '<' ∧ c ≠ '>')
    (ha : ∀ a ∈ as, (∀ c ∈ a.1.toList, c ≠ '<' ∧ c ≠ '>') ∧ Quotable a.2) :
    ∀ c ∈ (opening name as).inside, c ≠ '<' ∧ c ≠ '>' := by
  intro c hc
  rcases List.mem_append.1 hc with hc | hc
  · exact hn c hc
  · obtain ⟨a, has, hca⟩ := List.mem_flatMap.1 hc
    exact not_bracket_attributeText (ha a has).1 (ha a has).2 c hca

/-- The names of elements and attributes hold no bracket. -/
theorem not_bracket_name : ∀ n ∈ bareNames ++ closedNames ++
    ["img", "class", "href", "target", "rel", "src", "alt"],
    ∀ c ∈ n.toList, c ≠ '<' ∧ c ≠ '>' := by
  simp [bareNames, closedNames]

/-- The classes of a code block, its label and the relations of a link are quotable. -/
theorem quotable_fixed : ∀ v ∈ classes.map Prod.snd ++
    ["language-", "_blank", "noopener noreferrer"], Quotable v.toList := by
  simp [classes, Quotable]

/-- The label of a fence is quotable. -/
theorem quotable_label {label : List Char} (h : ∀ c ∈ label, LabelChar c) : Quotable label := by
  intro c hc
  rcases h c hc with hc | hc
  · refine ⟨?_, ?_, ?_⟩ <;> rintro rfl <;> exact absurd hc (by decide)
  · exact (by simp : ∀ c ∈ ['+', '#', '-', '_', '.'], c ≠ '"' ∧ c ≠ '<' ∧ c ≠ '>') c hc

theorem Quotable.append {v w : List Char} (hv : Quotable v) (hw : Quotable w) :
    Quotable (v ++ w) := by
  intro c hc
  rcases List.mem_append.1 hc with hc | hc
  · exact hv c hc
  · exact hw c hc

/-- No bracket stands inside a tag that is written. -/
theorem Known.not_bracket {t : Tag} (h : Known t) : ∀ c ∈ t.inside, c ≠ '<' ∧ c ≠ '>' := by
  have hclass : ∀ c ∈ "class".toList, c ≠ '<' ∧ c ≠ '>' := not_bracket_name _ (by decide)
  cases h with
  | bare h => exact not_bracket_opening (not_bracket_name _ (by simp [h])) (by simp)
  | closing h =>
    intro c hc
    rcases List.mem_cons.1 hc with rfl | hc
    · decide
    · exact not_bracket_name _ (by simp [h]) c hc
  | fixed h =>
    have hname := (by decide : ∀ p ∈ classes, p.1 ∈ closedNames) _ h
    have hcls := quotable_fixed _ (List.mem_append_left _ (List.mem_map_of_mem h))
    refine not_bracket_opening (not_bracket_name _ (by simp [hname])) fun a ha => ?_
    rw [List.mem_singleton.1 ha]
    exact ⟨hclass, hcls⟩
  | role r =>
    refine not_bracket_opening (not_bracket_name _ (by decide)) fun a ha => ?_
    rw [List.mem_singleton.1 ha]
    exact ⟨hclass, quotable_cls r⟩
  | code h =>
    refine not_bracket_opening (not_bracket_name _ (by decide)) fun a ha => ?_
    rw [List.mem_singleton.1 ha]
    exact ⟨hclass, (quotable_fixed _ (by decide)).append (quotable_label h)⟩
  | anchor h =>
    refine not_bracket_opening (not_bracket_name _ (by decide)) fun a ha => ?_
    simp only [List.mem_cons, List.not_mem_nil, or_false] at ha
    rcases ha with rfl | rfl | rfl
    · exact ⟨not_bracket_name "href" (by decide), h⟩
    · exact ⟨not_bracket_name _ (by decide), quotable_fixed _ (by decide)⟩
    · exact ⟨not_bracket_name _ (by decide), quotable_fixed _ (by decide)⟩
  | image ha ht =>
    refine not_bracket_opening (not_bracket_name _ (by decide)) fun a h => ?_
    simp only [List.mem_cons, List.not_mem_nil, or_false] at h
    rcases h with rfl | rfl
    · exact ⟨not_bracket_name "src" (by decide), ha⟩
    · exact ⟨not_bracket_name "alt" (by decide), ht⟩

end Tag

/-! ## Parts of markup -/

/-- A part of generated markup. -/
inductive Atom where
  /-- A character that means itself. -/
  | char (c : Char)
  /-- An entity. -/
  | entity (name : String)
  /-- A tag. -/
  | tag (t : Tag)

namespace Atom

/-- The entities that are ever written. -/
def entities : List String := ["amp", "lt", "gt", "quot"]

/-- A part as it is written. -/
def source : Atom → List Char
  | char c => [c]
  | entity name => '&' :: (name.toList ++ [';'])
  | tag t => t.source

/-- The segments as which a part is read. -/
def segments : Atom → List Segment
  | char c => [.char c]
  | entity name => ('&' :: (name.toList ++ [';'])).map .char
  | tag t => [.tag t.inside]

/-- A part may stand in markup whose tags satisfy `T`. -/
def Fits (T : Tag → Prop) : Atom → Prop
  | char c => c ≠ '<' ∧ c ≠ '>' ∧ c ≠ '&'
  | entity name => name ∈ entities
  | tag t => T t

theorem Fits.mono {S T : Tag → Prop} (hST : ∀ t, S t → T t) {a : Atom} (h : a.Fits S) :
    a.Fits T := by
  cases a with
  | char c => exact h
  | entity name => exact h
  | tag t => exact hST t h

end Atom

/-- Parts put together. -/
def assemble (as : List Atom) : List Char := as.flatMap Atom.source

@[simp] theorem assemble_nil : assemble [] = [] := rfl

@[simp] theorem assemble_cons (a : Atom) (as : List Atom) :
    assemble (a :: as) = a.source ++ assemble as := rfl

@[simp] theorem assemble_append (as bs : List Atom) :
    assemble (as ++ bs) = assemble as ++ assemble bs :=
  List.flatMap_append

/-- Markup that is made of characters, entities, and tags that satisfy `T`. -/
def MadeOf (T : Tag → Prop) (m : List Char) : Prop :=
  ∃ as : List Atom, (∀ a ∈ as, a.Fits T) ∧ assemble as = m

namespace MadeOf

variable {T : Tag → Prop}

theorem nil : MadeOf T [] := ⟨[], by simp, rfl⟩

theorem append {m n : List Char} (hm : MadeOf T m) (hn : MadeOf T n) : MadeOf T (m ++ n) := by
  obtain ⟨as, ha, rfl⟩ := hm
  obtain ⟨bs, hb, rfl⟩ := hn
  refine ⟨as ++ bs, fun a h => ?_, assemble_append as bs⟩
  rcases List.mem_append.1 h with h | h
  · exact ha a h
  · exact hb a h

theorem mono {S : Tag → Prop} (hST : ∀ t, S t → T t) {m : List Char} (h : MadeOf S m) :
    MadeOf T m := by
  obtain ⟨as, ha, rfl⟩ := h
  exact ⟨as, fun a h => (ha a h).mono hST, rfl⟩

theorem atom {a : Atom} (h : a.Fits T) : MadeOf T a.source :=
  ⟨[a], by simpa using h, by simp⟩

theorem tag {t : Tag} (h : T t) : MadeOf T t.source := atom (a := .tag t) h

theorem entity (name : String) (h : name ∈ Atom.entities) :
    MadeOf T ('&' :: (name.toList ++ [';'])) :=
  atom (a := .entity name) h

/-- A character that is no bracket and no ampersand means itself. -/
theorem char {c : Char} (h : c ≠ '<' ∧ c ≠ '>' ∧ c ≠ '&') : MadeOf T [c] :=
  atom (a := .char c) h

/-- Text without brackets and ampersands means itself. -/
theorem text {cs : List Char} (h : ∀ c ∈ cs, c ≠ '<' ∧ c ≠ '>' ∧ c ≠ '&') : MadeOf T cs := by
  induction cs with
  | nil => exact nil
  | cons c cs ih =>
    exact (char (h c (List.mem_cons_self ..))).append
      (ih fun d hd => h d (List.mem_cons_of_mem _ hd))

theorem flatMap {α : Type} {f : α → List Char} {l : List α} (h : ∀ x ∈ l, MadeOf T (f x)) :
    MadeOf T (l.flatMap f) := by
  induction l with
  | nil => exact nil
  | cons x l ih =>
    exact (h x (List.mem_cons_self ..)).append (ih fun y hy => h y (List.mem_cons_of_mem _ hy))

/-- An escaped character is a character or an entity. -/
theorem escapeChar (c : Char) : MadeOf T (Text.escapeChar c).toList := by
  unfold Text.escapeChar
  split
  · exact entity "amp" (by decide)
  · split
    · exact entity "lt" (by decide)
    · split
      · exact entity "gt" (by decide)
      · rw [String.toList_singleton]
        exact char ⟨‹_›, ‹_›, ‹_›⟩

theorem escape (s : String) : MadeOf T (Text.escape s).toList := by
  rw [Text.toList_escape]
  exact flatMap fun c _ => escapeChar c

end MadeOf

/-- Text as it is written between tags. -/
def escaped (x : List Char) : List Char := x.flatMap fun c => (Text.escapeChar c).toList

@[simp] theorem escaped_nil : escaped [] = [] := rfl

@[simp] theorem escaped_append (x y : List Char) : escaped (x ++ y) = escaped x ++ escaped y :=
  List.flatMap_append

theorem toList_escape_eq (s : String) : (Text.escape s).toList = escaped s.toList :=
  Text.toList_escape s

theorem toList_rewrite_escapeChar (x : List Char) :
    (Text.rewrite Text.escapeChar x).toList = escaped x :=
  Text.toList_rewrite Text.escapeChar x

/-- Characters that mean themselves are written as they are. -/
theorem escaped_of_plain {w : List Char} (h : ∀ c ∈ w, c ≠ '<' ∧ c ≠ '>' ∧ c ≠ '&') :
    escaped w = w := by
  induction w with
  | nil => rfl
  | cons c w ih =>
    obtain ⟨hlt, hgt, hamp⟩ := h c (List.mem_cons_self ..)
    have hc : (Text.escapeChar c).toList = [c] := by simp [Text.escapeChar, hlt, hgt, hamp]
    show (Text.escapeChar c).toList ++ escaped w = c :: w
    rw [hc, ih fun d hd => h d (List.mem_cons_of_mem _ hd)]
    rfl

/-- Escaped text is made of characters and entities. -/
theorem madeOf_escaped {T : Tag → Prop} (x : List Char) : MadeOf T (escaped x) :=
  MadeOf.flatMap fun c _ => MadeOf.escapeChar c

theorem lt_not_mem_escaped (x : List Char) : '<' ∉ escaped x := by
  have h := (Text.not_bracket_mem_escape (String.ofList x)).1
  rwa [toList_escape_eq, String.toList_ofList] at h

/-! ## Reading markup back -/

/-- A tag is read up to its right bracket. -/
theorem read_append_of_not_gt (held : List Char) {inside : List Char}
    (h : ∀ c ∈ inside, c ≠ '>') (rest : List Char) :
    Segment.read (some held) (inside ++ '>' :: rest) =
      .tag (held.reverse ++ inside) :: Segment.read none rest := by
  induction inside generalizing held with
  | nil => simp [Segment.read]
  | cons c cs ih =>
    have hc : c ≠ '>' := h c (List.mem_cons_self ..)
    rw [List.cons_append, Segment.read, if_neg hc, ih _ fun d hd => h d (List.mem_cons_of_mem _ hd)]
    simp

/-- Text without left brackets is read as it stands. -/
theorem segments_text_append {cs : List Char} (h : ∀ c ∈ cs, c ≠ '<') (rest : List Char) :
    segments (cs ++ rest) = cs.map .char ++ segments rest := by
  induction cs with
  | nil => rfl
  | cons c cs ih =>
    have hc : c ≠ '<' := h c (List.mem_cons_self ..)
    have ih := ih fun d hd => h d (List.mem_cons_of_mem _ hd)
    simp only [segments, List.cons_append, List.map_cons] at ih ⊢
    rw [Segment.read, if_neg hc, ih]

/-- A part is read as what it was written as, whatever follows. -/
theorem segments_source_append {a : Atom} (h : a.Fits Tag.Known) (rest : List Char) :
    segments (a.source ++ rest) = a.segments ++ segments rest := by
  cases a with
  | char c =>
    have hc : ∀ d ∈ [c], d ≠ '<' := by
      intro d hd
      rw [List.mem_singleton.1 hd]
      exact h.1
    exact segments_text_append hc rest
  | entity name =>
    refine segments_text_append (fun d hd => ?_) rest
    rcases List.mem_cons.1 hd with rfl | hd
    · decide
    · rcases List.mem_append.1 hd with hd | hd
      · exact (by simp [Atom.entities] : ∀ n ∈ Atom.entities, ∀ d ∈ n.toList, d ≠ '<') name h d hd
      · rw [List.mem_singleton.1 hd]
        decide
  | tag t =>
    have hgt : ∀ c ∈ t.inside, c ≠ '>' := fun c hc => (h.not_bracket c hc).2
    have hread := read_append_of_not_gt [] hgt rest
    simpa [segments, Atom.source, Tag.source, Atom.segments, Segment.read] using hread

/-- Parts put together are read as what they were written as. -/
theorem segments_assemble_append {as : List Atom} (h : ∀ a ∈ as, a.Fits Tag.Known)
    (rest : List Char) :
    segments (assemble as ++ rest) = as.flatMap Atom.segments ++ segments rest := by
  induction as with
  | nil => rfl
  | cons a as ih =>
    rw [assemble_cons, List.append_assoc, segments_source_append (h a (List.mem_cons_self ..)),
      ih fun b hb => h b (List.mem_cons_of_mem _ hb), List.flatMap_cons, List.append_assoc]

theorem segments_assemble {as : List Atom} (h : ∀ a ∈ as, a.Fits Tag.Known) :
    segments (assemble as) = as.flatMap Atom.segments := by
  have hnil := segments_assemble_append h []
  rw [List.append_nil] at hnil
  rw [hnil]
  exact List.append_nil _

/-- In markup made of known parts, reading can stop at the end of any such markup. -/
theorem MadeOf.segments_append {m : List Char} (h : MadeOf Tag.Known m) (rest : List Char) :
    segments (m ++ rest) = segments m ++ segments rest := by
  obtain ⟨as, ha, rfl⟩ := h
  rw [segments_assemble_append ha rest, segments_assemble ha]

/-! ## Cutting markup

Markup can be cut wherever no part goes on.  The brackets of tags show such places, and
so does a character that stands in no tag and no entity. -/

/-- No part goes on from `l` into `r`. -/
def Between (T : Tag → Prop) (l r : List Char) : Prop :=
  ∀ a : Atom, a.Fits T → ∀ x y, a.source = x ++ y → x <:+ l → y <+: r → x = [] ∨ y = []

/-- Markup can be cut where no part goes on. -/
theorem MadeOf.of_append {T : Tag → Prop} {l r : List Char} (hb : Between T l r)
    (h : MadeOf T (l ++ r)) : MadeOf T l ∧ MadeOf T r := by
  obtain ⟨as, ha, has⟩ := h
  induction as generalizing l with
  | nil =>
    obtain ⟨rfl, rfl⟩ := List.append_eq_nil_iff.1 has.symm
    exact ⟨nil, nil⟩
  | cons a as ih =>
    have hfits := ha a (List.mem_cons_self ..)
    have hrest : ∀ b ∈ as, b.Fits T := fun b hb => ha b (List.mem_cons_of_mem _ hb)
    rw [assemble_cons] at has
    rcases List.append_eq_append_iff.1 has with ⟨l', rfl, hr⟩ | ⟨r', hsource, rfl⟩
    · have hb' : Between T l' r := fun b hf x y hxy hx hy =>
        hb b hf x y hxy (hx.trans (List.suffix_append ..)) hy
      obtain ⟨hl', hr'⟩ := ih hb' hrest hr
      exact ⟨(atom hfits).append hl', hr'⟩
    · -- the place is in this part, so it is at one of its ends
      rcases hb a hfits l r' hsource (List.suffix_refl l) (List.prefix_append ..) with rfl | rfl
      · rw [List.nil_append] at hsource
        exact ⟨nil, hsource ▸ (atom hfits).append ⟨as, hrest, rfl⟩⟩
      · rw [List.append_nil] at hsource
        exact ⟨hsource ▸ atom hfits, ⟨as, hrest, rfl⟩⟩

/-- In a part, a left bracket is the first character and a right bracket the last. -/
theorem Atom.Fits.bracket {T : Tag → Prop} (hT : ∀ t, T t → t.Known) {a : Atom}
    (ha : a.Fits T) {x y : List Char} (h : a.source = x ++ y) :
    ((∃ y', y = '<' :: y') → x = []) ∧ ((∃ x', x = x' ++ ['>']) → y = []) := by
  cases a with
  | char c =>
    rcases List.append_eq_singleton_iff.1 h.symm with ⟨rfl, rfl⟩ | ⟨rfl, rfl⟩
    · exact ⟨fun _ => rfl, fun ⟨x', hx⟩ => by simp at hx⟩
    · exact ⟨fun ⟨y', hy⟩ => by simp at hy, fun _ => rfl⟩
  | entity name =>
    have hnot := (by decide : ∀ n ∈ entities, '<' ∉ '&' :: (n.toList ++ [';']) ∧
      '>' ∉ '&' :: (n.toList ++ [';'])) name ha
    have hsource : '&' :: (name.toList ++ [';']) = x ++ y := h
    rw [hsource] at hnot
    exact ⟨fun ⟨y', hy⟩ => absurd (by simp [hy]) hnot.1,
      fun ⟨x', hx⟩ => absurd (by simp [hx]) hnot.2⟩
  | tag t =>
    have hinside := (hT t ha).not_bracket
    have hsource : '<' :: (t.inside ++ ['>']) = x ++ y := h
    constructor
    · rintro ⟨y', rfl⟩
      cases x with
      | nil => rfl
      | cons c x =>
        -- a left bracket after the first character would stand inside the tag
        have htail := (List.cons.inj hsource).2
        have hmem : '<' ∈ t.inside ++ ['>'] := by rw [htail]; simp
        rcases List.mem_append.1 hmem with hmem | hmem
        · exact absurd rfl (hinside _ hmem).1
        · exact absurd (List.mem_singleton.1 hmem) (by decide)
    · rintro ⟨x', rfl⟩
      by_cases hy : y = []
      · exact hy
      · -- so would a right bracket before the last one
        have hinit : '<' :: t.inside = x' ++ ['>'] ++ y.dropLast := by
          have hlast := congrArg List.dropLast hsource
          rwa [← List.cons_append, List.dropLast_concat,
            List.dropLast_append_of_ne_nil hy] at hlast
        have hmem : '>' ∈ '<' :: t.inside := by rw [hinit]; simp
        rcases List.mem_cons.1 hmem with hmem | hmem
        · exact absurd hmem (by decide)
        · exact absurd rfl (hinside _ hmem).2

/-- A tag begins at a left bracket. -/
theorem between_lt {T : Tag → Prop} (hT : ∀ t, T t → t.Known) (l r : List Char) :
    Between T l ('<' :: r) := by
  intro a ha x y h _ hy
  cases y with
  | nil => exact Or.inr rfl
  | cons c y =>
    have hc : c = '<' := (List.cons_prefix_cons.1 hy).1
    exact Or.inl ((ha.bracket hT h).1 ⟨y, by rw [hc]⟩)

/-- A tag ends at a right bracket. -/
theorem between_gt {T : Tag → Prop} (hT : ∀ t, T t → t.Known) (l r : List Char) :
    Between T (l ++ ['>']) r := by
  intro a ha x y h hx _
  rcases List.suffix_concat_iff.1 hx with rfl | ⟨x', rfl, _⟩
  · exact Or.inl rfl
  · exact Or.inr ((ha.bracket hT h).2 ⟨x', rfl⟩)

/-- A part ends with a right bracket or a semicolon, unless it is a character. -/
theorem between_last {T : Tag → Prop} (l : List Char) {c : Char} (hgt : c ≠ '>')
    (hsemicolon : c ≠ ';') : Between T l [c] := by
  intro a _ x y h _ hy
  cases y with
  | nil => exact Or.inr rfl
  | cons d y =>
    obtain ⟨rfl, hnil⟩ := List.cons_prefix_cons.1 hy
    obtain rfl := List.prefix_nil.1 hnil
    have hlast := congrArg List.getLast? h
    rw [List.getLast?_concat] at hlast
    cases a with
    | char d =>
      rcases List.append_eq_singleton_iff.1 h.symm with ⟨hx, _⟩ | ⟨_, hc⟩
      · exact Or.inl hx
      · cases hc
    | entity name =>
      rw [Atom.source, ← List.cons_append, List.getLast?_concat] at hlast
      exact absurd (Option.some.inj hlast).symm hsemicolon
    | tag t =>
      rw [Atom.source, Tag.source, ← List.cons_append, List.getLast?_concat] at hlast
      exact absurd (Option.some.inj hlast).symm hgt

/-- A character that, in markup whose tags satisfy `T`, only ever means itself. -/
structure Literal (T : Tag → Prop) (c : Char) : Prop where
  /-- It may stand for itself. -/
  plain : c ≠ '<' ∧ c ≠ '>' ∧ c ≠ '&'
  /-- It stands in no entity. -/
  not_entity : ∀ n ∈ Atom.entities, c ∉ n.toList ++ [';']
  /-- It stands in no tag. -/
  not_tag : ∀ t, T t → c ∉ t.inside

/-- A part in which such a character stands is that character. -/
theorem Literal.eq_char {T : Tag → Prop} {c : Char} (hc : Literal T c) {a : Atom}
    (ha : a.Fits T) (h : c ∈ a.source) : a = .char c := by
  cases a with
  | char d =>
    rw [List.mem_singleton.1 h]
  | entity name =>
    rcases List.mem_cons.1 h with h | h
    · exact absurd h hc.plain.2.2
    · exact absurd h (hc.not_entity name ha)
  | tag t =>
    rcases List.mem_cons.1 h with h | h
    · exact absurd h hc.plain.1
    · rcases List.mem_append.1 h with h | h
      · exact absurd h (hc.not_tag t ha)
      · exact absurd (List.mem_singleton.1 h) hc.plain.2.1

/-- A part in which such a character stands goes on nowhere. -/
theorem Literal.eq_nil {T : Tag → Prop} {c : Char} (hc : Literal T c) {a : Atom}
    (ha : a.Fits T) {x y : List Char} (h : a.source = x ++ y) (hmem : c ∈ x ++ y) :
    x = [] ∨ y = [] := by
  rw [hc.eq_char ha (h ▸ hmem)] at h
  rcases List.append_eq_singleton_iff.1 h.symm with ⟨hx, _⟩ | ⟨_, hy⟩
  · exact Or.inl hx
  · exact Or.inr hy

/-- What stands on either side of a literal word is made of parts. -/
theorem MadeOf.of_append_word {T : Tag → Prop} {w : List Char} (hw : ∀ c ∈ w, Literal T c)
    (hne : w ≠ []) {l r : List Char} (h : MadeOf T (l ++ w ++ r)) : MadeOf T l ∧ MadeOf T r := by
  have hafter : Between T (l ++ w) r := by
    intro a ha x y hxy hx _
    rcases List.eq_nil_or_concat w with rfl | ⟨w', c, rfl⟩
    · exact absurd rfl hne
    · rw [List.concat_eq_append, ← List.append_assoc] at hx
      rcases List.suffix_concat_iff.1 hx with rfl | ⟨x', rfl, _⟩
      · exact Or.inl rfl
      · exact (hw c (by simp)).eq_nil ha hxy (by simp)
  have hbefore : Between T l w := by
    intro a ha x y hxy _ hy
    cases y with
    | nil => exact Or.inr rfl
    | cons c y =>
      exact (hw c (hy.subset (List.mem_cons_self ..))).eq_nil ha hxy (by simp)
  obtain ⟨hlw, hr⟩ := h.of_append hafter
  exact ⟨(hlw.of_append hbefore).1, hr⟩

end Markup
end AnswerStream
