import AnswerStream.Proofs.Markup.Page

/-!
# Blocks as regions of lines

A text without bars has no tables, and then its blocks can be told without a scan: each
line outside a fence has one kind, the first whose shape it has, and lines of one kind that
follow each other make up a region.  `regions` cuts the lines of a text this way and
`regionsMarkup` writes the regions down.

## Why the scan finds the kind of a line

The scan tries the shapes of all blocks but the one it is in, and falls back to a paragraph
if a line does not go on with that one.  This finds the kind of the line, because a line of
a region has no other shape: what starts a quote, an item with a number and one without are
different characters, and all shapes that come before are tried first (`fits_of_kindOf`).
So the scan moves at most once where a line starts (`nextState_of_kindOf`).

## The end of a text

A blank line of a quote shows a break, but a quote that ends with the text is left before
the break is written (`Kind.shown`).  No other line can be affected: newlines at the end of
a text are dropped before it is scanned, so its last line is not empty.
-/

namespace AnswerStream
namespace Markup

open Text Scan

namespace Block

/-! ## Kinds of lines -/

/-- What a line is outside a fence. -/
inductive Kind where
  | fence
  | heading
  | rule
  | quote
  | ordered
  | unordered
  | paragraph
  deriving DecidableEq

/-- The kind of a line: the first one whose shape it has. -/
def kindOf (line : List Char) : Kind :=
  if Line.opensFence line then .fence
  else if (Line.heading? line).isSome then .heading
  else if Line.isRule line then .rule
  else if (Line.quote? line).isSome then .quote
  else if (Line.ordered? line).isSome then .ordered
  else if (Line.unordered? line).isSome then .unordered
  else .paragraph

namespace Kind

/-- Whether a region of this kind goes on with a line. -/
def takes (k : Kind) (line : List Char) : Bool :=
  match k with
  | .fence => !Line.closesFence line
  | .heading | .rule => false
  | k => kindOf line = k

/-- The lines after a region that has started, among those after its first line.  The line
that closes a fence is consumed. -/
def rest (k : Kind) (lines : List (List Char)) : List (List Char) :=
  match k with
  | .fence => (lines.dropWhile k.takes).drop 1
  | k => lines.dropWhile k.takes

theorem length_rest_le (k : Kind) (lines : List (List Char)) :
    (k.rest lines).length ≤ lines.length := by
  have hdrop := (List.dropWhile_sublist k.takes (l := lines)).length_le
  cases k <;> simp only [rest, List.length_drop] <;> omega

end Kind

/-! ## Regions -/

/-- Lines that are marked up together. -/
structure LineRegion where
  /-- Their kind. -/
  kind : Kind
  /-- The lines; of a fence, the opening line and the body. -/
  lines : List (List Char)

/-- The regions of lines. -/
def regions : List (List Char) → List LineRegion
  | [] => []
  | line :: lines =>
    let k := kindOf line
    { kind := k, lines := line :: lines.takeWhile k.takes } :: regions (k.rest lines)
termination_by lines => lines.length
decreasing_by exact Nat.lt_succ_of_le (Kind.length_rest_le _ _)

/-! ## Regions as markup -/

/-- A line that is joined to those before it by a break; `body` is nothing for a line
without content. -/
def joined (fresh : Bool) : Option String → String
  | none => if fresh then "" else "<br>"
  | some body => if fresh then body else "<br>" ++ body

/-- Markup in an element, if there is any. -/
def enclosed (tag content : String) : String :=
  if content = "" then "" else "<" ++ tag ++ ">" ++ content ++ "</" ++ tag ++ ">"

/-- An item of a list. -/
def item (text : List Char) : String := "<li>" ++ inline text ++ "</li>"

/-- A heading. -/
def heading (line : List Char) : String :=
  match Line.heading? line with
  | some (level, text) =>
    let tag := "h" ++ toString level
    "<" ++ tag ++ ">" ++ inline (Line.headingText text) ++ "</" ++ tag ++ ">"
  | none => ""

/-- The text of a quote's line. -/
def quoteText (line : List Char) : List Char := (Line.quote? line).getD []

namespace Kind

/-- What a line adds to a region, which is `fresh` while it shows nothing.  A fence is not
written line by line. -/
def line (k : Kind) (fresh : Bool) (l : List Char) : String :=
  match k with
  | .paragraph => joined fresh (if l = [] then none else some (inline l))
  | .quote =>
    joined fresh (if allBlank (quoteText l) then none else some (inline (quoteText l)))
  | .ordered => item ((Line.ordered? l).getD [])
  | .unordered => item ((Line.unordered? l).getD [])
  | .heading => Block.heading l
  | .rule => "<hr>"
  | .fence => ""

/-- Lines written after `content`. -/
def content (k : Kind) (content : String) (lines : List (List Char)) : String :=
  lines.foldl (fun content l => content ++ k.line (content = "") l) content

/-- The content of a region in the element of its kind. -/
def wrap (k : Kind) (content : String) : String :=
  match k with
  | .quote => enclosed "blockquote" content
  | .ordered => enclosed "ol" content
  | .unordered => enclosed "ul" content
  | .fence | .heading | .rule | .paragraph => content

/-- The lines that are shown where a text ends: a quote is left before a blank line at its
end is written. -/
def shown (k : Kind) (lines : List (List Char)) : List (List Char) :=
  if k = .quote ∧ lines.getLast?.any (fun l => allBlank (quoteText l)) then lines.dropLast
  else lines

end Kind

/-- The markup of a fence. -/
def fenceMarkup (code : String → String → String) (lines : List (List Char)) : String :=
  Fence.markup code
    { label := String.ofList (Line.fenceLabel (lines.headD []))
      body := String.ofList (unlines lines.tail) }

/-- The markup of a region. -/
def LineRegion.markup (code : String → String → String) (r : LineRegion) : String :=
  match r.kind with
  | .fence => fenceMarkup code r.lines
  | k => k.wrap (k.content "" r.lines)

/-- The markup of regions up to the end of a text. -/
def regionsMarkup (code : String → String → String) : List LineRegion → String
  | [] => ""
  | [r] => { r with lines := r.kind.shown r.lines : LineRegion }.markup code
  | r :: r' :: rs => r.markup code ++ regionsMarkup code (r' :: rs)

/-- The markup of a text without bars and carriage returns. -/
def plain (code : String → String → String) (text : String) : String :=
  regionsMarkup code (regions (splitOn '\n' (dropEndWhile (· == '\n') text.toList)))

/-! ## A line has one kind -/

namespace Kind

/-- The shape of a line of this kind. -/
def shape : Kind → Option Shape
  | .fence => some .fence
  | .heading => some .heading
  | .rule => some .rule
  | .quote => some .quote
  | .ordered => some .ordered
  | .unordered => some .unordered
  | .paragraph => none

/-- The state in which a scan reads lines of this kind. -/
def state (k : Kind) : State := k.shape.elim .paragraph .block

/-- Whether lines of this kind make up regions of more than one line. -/
def runs : Kind → Bool
  | .quote | .ordered | .unordered | .paragraph => true
  | .fence | .heading | .rule => false

theorem shape_injective {k k' : Kind} (h : k.shape = k'.shape) : k = k' := by
  cases k <;> cases k' <;> first | rfl | cases h

theorem state_injective {k k' : Kind} (h : k.state = k'.state) : k = k' := by
  refine shape_injective ?_
  unfold state at h
  cases hs : k.shape <;> cases hs' : k'.shape <;> simp_all

end Kind

/-- What follows at most three spaces starts the line. -/
theorem trimStart_of_unindent {l rest : List Char} {c : Char}
    (h : Line.unindent? l = some (c :: rest)) (hc : isBlank c = false) :
    trimStart l = c :: rest := by
  have hspaces : l.dropWhile (· == ' ') = c :: rest := by
    unfold Line.unindent? at h
    dsimp only at h
    split at h
    · exact Option.some.inj h
    · cases h
  clear h
  unfold trimStart
  induction l with
  | nil => cases hspaces
  | cons d l ih =>
    rw [List.dropWhile_cons] at hspaces ⊢
    split at hspaces
    · rename_i hd
      rw [beq_iff_eq] at hd
      subst hd
      exact ih hspaces
    · cases hspaces
      rw [hc]
      rfl

theorem head_of_quote {l : List Char} (h : (Line.quote? l).isSome = true) :
    (trimStart l).head? = some '>' := by
  unfold Line.quote? at h
  split at h
  · rename_i hrest
    rw [trimStart_of_unindent hrest (by decide)]
    rfl
  · rename_i hrest
    rw [trimStart_of_unindent hrest (by decide)]
    rfl
  · cases h

theorem head_of_unordered {l : List Char} (h : (Line.unordered? l).isSome = true) :
    ∃ c, (trimStart l).head? = some c ∧ (c = '-' ∨ c = '*' ∨ c = '+') := by
  unfold Line.unordered? at h
  split at h
  · rename_i mark rest hline
    split at h
    · rename_i hmark
      exact ⟨mark, by rw [hline]; rfl, hmark⟩
    · cases h
  · cases h

theorem head_of_ordered {l : List Char} (h : (Line.ordered? l).isSome = true) :
    ∃ c, (trimStart l).head? = some c ∧ isDecimalDigit c = true := by
  unfold Line.ordered? at h
  dsimp only at h
  split at h
  · split at h
    · rename_i hdigits
      -- at least one digit is read, so the line starts with it
      cases hline : trimStart l with
      | nil =>
        rw [hline] at hdigits
        exact absurd hdigits.1 (by decide)
      | cons c cs =>
        refine ⟨c, rfl, ?_⟩
        rw [hline, List.takeWhile_cons] at hdigits
        split at hdigits
        · assumption
        · exact absurd hdigits.1 (by decide)
    · cases h
  · cases h

/-- A line of a quote is no item. -/
theorem not_item_of_quote {l : List Char} (h : (Line.quote? l).isSome = true) :
    (Line.ordered? l).isSome = false ∧ (Line.unordered? l).isSome = false := by
  have hquote := head_of_quote h
  constructor
  · rw [Bool.eq_false_iff]
    intro hordered
    obtain ⟨c, hc, hdigit⟩ := head_of_ordered hordered
    rw [hquote] at hc
    cases hc
    exact absurd hdigit (by decide)
  · rw [Bool.eq_false_iff]
    intro hunordered
    obtain ⟨c, hc, hmark⟩ := head_of_unordered hunordered
    rw [hquote] at hc
    cases hc
    exact absurd hmark (by decide)

/-- An item of an ordered list is none of an unordered one. -/
theorem not_unordered_of_ordered {l : List Char} (h : (Line.ordered? l).isSome = true) :
    (Line.unordered? l).isSome = false := by
  rw [Bool.eq_false_iff]
  intro hunordered
  obtain ⟨c, hc, hdigit⟩ := head_of_ordered h
  obtain ⟨d, hd, hmark⟩ := head_of_unordered hunordered
  rw [hc] at hd
  cases hd
  rcases hmark with rfl | rfl | rfl <;> exact absurd hdigit (by decide)

/-- The first shape of a line other than that of a table is that of its kind. -/
theorem otherShape_table_eq (l : List Char) (following : Option (List Char)) :
    otherShape l following (some .table) = (kindOf l).shape := by
  show [Shape.fence, .heading, .rule, .quote, .ordered, .unordered].find? _ = _
  simp only [List.find?_cons, Shape.fits, List.find?_nil]
  unfold kindOf
  cases Line.opensFence l <;> cases (Line.heading? l).isSome <;> cases Line.isRule l <;>
    cases (Line.quote? l).isSome <;> cases (Line.ordered? l).isSome <;>
    cases (Line.unordered? l).isSome <;> rfl

/-- The first shape of a line that starts no table is that of its kind. -/
theorem otherShape_of_not_table {l : List Char} {following : Option (List Char)}
    (htable : Shape.table.fits l following = false) :
    otherShape l following none = (kindOf l).shape := by
  rw [← otherShape_table_eq l following]
  show [Shape.fence, .table, .heading, .rule, .quote, .ordered, .unordered].find? _ =
    [Shape.fence, .heading, .rule, .quote, .ordered, .unordered].find? _
  simp only [List.find?_cons, htable]

/-- A line without bars starts no table. -/
theorem otherShape_none {l : List Char} (hbar : '|' ∉ l) (following : Option (List Char)) :
    otherShape l following none = (kindOf l).shape := by
  have hrow : Line.isRow l = false := by simpa [Line.isRow] using hbar
  exact otherShape_of_not_table (by simp [Shape.fits, hrow])

/-- A line without shape has no other shape. -/
theorem otherShape_of_none {l : List Char} {following : Option (List Char)}
    (h : otherShape l following none = none) (current : Option Shape) :
    otherShape l following current = none := by
  have hall : ∀ s ∈ Shape.all, ¬ s.fits l following = true := List.find?_eq_none.1 h
  exact List.find?_eq_none.2 fun s hs => hall s (List.mem_filter.1 hs).1

/-- The first shape of a line is the first one other than a shape it is not. -/
theorem otherShape_of_some {l : List Char} {following : Option (List Char)} {s : Shape}
    (h : otherShape l following none = some s) {current : Option Shape} (hne : some s ≠ current) :
    otherShape l following current = some s := by
  have hfirst : Shape.all.find? (fun s => s.fits l following) = some s := h
  obtain ⟨hfits, earlier, later, hall, hearlier⟩ := List.find?_eq_some_iff_append.1 hfirst
  unfold otherShape
  rw [List.find?_filter, List.find?_eq_some_iff_append]
  refine ⟨by simpa [hne] using hfits, earlier, later, hall, fun s hs => ?_⟩
  have hnot := hearlier s hs
  rw [Bool.not_eq_true'] at hnot
  simp [hnot]

/-- A line of a region has no shape but that of the region. -/
theorem fits_of_kindOf {l : List Char} (hbar : '|' ∉ l) (following : Option (List Char))
    {k : Kind} (hk : k.runs = true) (hl : kindOf l = k) {s : Shape} (hs : some s ≠ k.shape) :
    s.fits l following = false := by
  have hrow : Line.isRow l = false := by simpa [Line.isRow] using hbar
  have hquote : (Line.quote? l).isSome = true → _ := not_item_of_quote
  have hordered : (Line.ordered? l).isSome = true → _ := not_unordered_of_ordered
  unfold kindOf at hl
  cases k with
  | fence | heading | rule => cases hk
  | paragraph => cases s <;> grind [Shape.fits]
  | quote | ordered | unordered => cases s <;> grind [Shape.fits, Kind.shape]

/-- A line of a region has the shape of the region. -/
theorem fits_kindOf {l : List Char} (following : Option (List Char)) {k : Kind}
    (hl : kindOf l = k) {s : Shape} (hs : k.shape = some s) : s.fits l following = true := by
  unfold kindOf at hl
  cases k with
  | paragraph => cases hs
  | fence | heading | rule | quote | ordered | unordered => cases hs; grind [Shape.fits]

/-- Without bars, the scan moves to the state of the kind of a line. -/
theorem nextState_of_kindOf {l : List Char} (hbar : '|' ∉ l) (following : Option (List Char))
    {k : Kind} (hk : k.runs = true) :
    nextState l following k.state = if kindOf l = k then none else some (kindOf l).state := by
  have hfirst := otherShape_none hbar following
  have hsame : kindOf l = k → otherShape l following k.shape = none := by
    intro hl
    refine List.find?_eq_none.2 fun s hs => ?_
    have hne : some s ≠ k.shape := by simpa using (List.mem_filter.1 hs).2
    simp [fits_of_kindOf hbar following hk hl hne]
  have hother : kindOf l ≠ k → otherShape l following k.shape = (kindOf l).shape := by
    intro hl
    cases hshape : (kindOf l).shape with
    | none => exact otherShape_of_none (hfirst.trans hshape) _
    | some s =>
      exact otherShape_of_some (hfirst.trans hshape)
        fun heq => hl (Kind.shape_injective (hshape.trans heq))
  have hstate : (kindOf l).state = (kindOf l).shape.elim .paragraph .block := rfl
  cases hs : k.shape with
  | none =>
    have hk : k = .paragraph := Kind.shape_injective hs
    subst hk
    show (otherShape l following none).map State.block = _
    rw [hfirst, hstate]
    cases hshape : (kindOf l).shape with
    | none => rw [if_pos (Kind.shape_injective hshape)]; rfl
    | some s => rw [if_neg fun hl => by rw [hl] at hshape; cases hshape]; rfl
  | some s =>
    have hregion : isRegion s = true ∧ goesOn l s = s.fits l following := by
      cases k <;> cases hk <;> cases hs <;> exact ⟨rfl, rfl⟩
    have hnext : nextState l following (.block s) = _ := nextState_region hregion.1
    rw [hs] at hsame hother
    rw [show k.state = .block s by rw [Kind.state, hs]; rfl, hnext, hregion.2, hstate]
    by_cases hl : kindOf l = k
    · rw [hsame hl, fits_kindOf following hl hs, if_pos hl]
      rfl
    · rw [hother hl, if_neg hl]
      cases hshape : (kindOf l).shape with
      | none =>
        have hpar : kindOf l = .paragraph := Kind.shape_injective hshape
        rw [fits_of_kindOf hbar following rfl hpar (by simp [Kind.shape])]
        rfl
      | some s => rfl

end Block
end Markup
end AnswerStream
