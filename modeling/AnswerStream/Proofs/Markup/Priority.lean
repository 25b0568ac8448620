import AnswerStream.Proofs.Markup.Delimiters
import AnswerStream.Proofs.Markup.TableRows

/-!
# The shape a row is read as

Where a line starts its shapes are tried in order, the most specific first.  A row that a
separator follows starts a table, but it may have other shapes too: it may be a heading, a
quote or an item, of which a table is the more specific one.

## Why the order is not kept

The order is followed again in every state, for all shapes but that of the state.  So a row
with another shape leaves the table where it was entered.  A heading is not left again.  A
quote or a list is, for the table, and so on until the hops are spent; these are even in
number and the first one enters the table, so the last one leaves it (`settle_row`).

Hence a row is read as a table exactly if it has no other shape (`render_row_iff`).
-/

namespace AnswerStream
namespace Markup

open Text Scan

namespace Block

variable (code : String → String → String)

/-! ## Where a row settles -/

section Row

variable {l : List Char} {following : Option (List Char)}

/-- A table is left for the first other shape of a row. -/
theorem nextState_table_row (htable : Shape.table.fits l following = true) :
    nextState l following (.block .table) = (kindOf l).shape.map .block := by
  have hgoes : goesOn l .table = true := (Bool.and_eq_true_iff.1 htable).1
  rw [nextState_region rfl, otherShape_table_eq, hgoes]
  cases (kindOf l).shape <;> rfl

/-- Every other region is left for the table. -/
theorem nextState_region_row (hfence : Line.opensFence l = false)
    (htable : Shape.table.fits l following = true) {s : Shape} (hregion : isRegion s = true)
    (hs : s ≠ .table) : nextState l following (.block s) = some (.block .table) := by
  have hne : some Shape.table ≠ some s := by simpa using hs.symm
  rw [nextState_region hregion, otherShape_of_some (otherShape_table hfence htable) hne]

/-- Two hops lead from a region of another shape to the table and back. -/
theorem settle_cycle (hfence : Line.opensFence l = false)
    (htable : Shape.table.fits l following = true) {s : Shape}
    (hshape : (kindOf l).shape = some s) (hs : s ≠ .table) (hregion : isRegion s = true) (n : Nat) :
    Page.settle code l following (2 * n) { state := .block s } = { state := .block s } := by
  have hleave := nextState_region_row hfence htable hregion hs
  have hreturn : nextState l following (.block .table) = some (.block s) := by
    rw [nextState_table_row htable, hshape]
    rfl
  have hne : State.block s ≠ .block .fence := by
    rintro ⟨⟩
    cases hregion
  induction n with
  | zero => exact settle_zero code hleave (by simp)
  | succ n ih =>
    rw [Nat.mul_succ, settle_succ code _ hleave (by simp),
      move_blank code (Or.inr ⟨s, rfl, hregion⟩), settle_succ code _ hreturn hne,
      move_blank code (Or.inr ⟨.table, rfl, rfl⟩)]
    exact ih

theorem kindOf_ne_fence (hfence : Line.opensFence l = false) : kindOf l ≠ .fence := by
  unfold kindOf
  grind

/-- **A row settles in the block of its kind**, if it has one, as if it were no row. -/
theorem settle_row (hfence : Line.opensFence l = false)
    (htable : Shape.table.fits l following = true) :
    Page.settle code l following hopLimit {} =
      if kindOf l = .paragraph then tablePage "" else (kindOf l).page "" "" := by
  have hnext := nextState_table_row htable
  have hleave : ∀ s, (kindOf l).shape = some s → s ≠ .fence →
      Page.settle code l following 15 (tablePage "") =
        Page.settle code l following 14 { state := .block s } := by
    intro s hshape hs
    rw [hshape] at hnext
    have hmove : (tablePage "").move code (.block s) = { state := .block s } :=
      move_blank code (Or.inr ⟨.table, rfl, rfl⟩) _
    rw [settle_succ code 14 hnext (by simpa using hs), hmove]
  rw [hopLimit, settle_table code hfence htable 15]
  cases hkind : kindOf l with
  | fence => exact absurd hkind (kindOf_ne_fence hfence)
  | paragraph =>
    rw [hkind] at hnext
    exact settle_of_none code 15 hnext
  | heading | rule =>
    rw [hleave _ (by rw [hkind]; rfl) (by decide)]
    exact settle_of_none code 14 rfl
  | quote | ordered | unordered =>
    -- the other fourteen hops are seven cycles
    rw [hleave _ (by rw [hkind]; rfl) (by decide)]
    exact settle_cycle code hfence htable (by rw [hkind]; rfl) (by decide) rfl 7

/-- A page that has read a row. -/
theorem line_first_row (hfence : Line.opensFence l = false)
    (htable : Shape.table.fits l following = true) :
    Page.line code l following {} =
      (if kindOf l = .paragraph then tablePage "" else (kindOf l).page "" "").keep l := by
  rw [Page.line, if_neg (by simp), settle_row code hfence htable]

end Row

/-! ## What a block starts with -/

namespace Kind

/-- What the markup of a region of this kind starts with. -/
def opening : Kind → String
  | .fence => "<div"
  | .heading => "<h"
  | .rule => "<hr>"
  | .quote => "<blockquote>"
  | .ordered => "<ol>"
  | .unordered => "<ul>"
  | .paragraph => ""

end Kind

section Opening

variable {l : List Char}

/-- A bar is no part of the mark of a quote. -/
theorem bar_mem_quoteText (hrow : Line.isRow l = true) (hquote : (Line.quote? l).isSome = true) :
    '|' ∈ quoteText l := by
  have hmem : '|' ∈ l := by simpa [Line.isRow] using hrow
  have hunindent : ∀ {rest}, Line.unindent? l = some rest → '|' ∈ rest := by
    intro rest h
    unfold Line.unindent? at h
    dsimp only at h
    split at h
    · cases h
      exact mem_dropWhile hmem (by decide)
    · cases h
  unfold quoteText
  unfold Line.quote? at hquote ⊢
  split at hquote
  · rename_i c rest hrest
    have hcons : '|' ∈ c :: rest := by simpa using hunindent hrest
    simp only [Option.getD_some]
    split
    · rename_i hblank
      refine (List.mem_cons.1 hcons).resolve_left ?_
      rintro rfl
      exact absurd hblank (by decide)
    · exact hcons
  · rename_i hrest
    exact absurd (hunindent hrest) (by decide)
  · cases hquote

/-- A row shows something in the region of its kind. -/
theorem line_row_ne_empty (hrow : Line.isRow l = true) {k : Kind} (hl : kindOf l = k)
    (hk : k.runs = true) (hpar : k ≠ .paragraph) : k.line true l ≠ "" := by
  cases k with
  | fence | heading | rule => cases hk
  | paragraph => exact absurd rfl hpar
  | ordered | unordered => simp [Kind.line, item]
  | quote =>
    have hbar := bar_mem_quoteText hrow (isSome_of_kindOf.2.1 hl)
    have hblank : allBlank (quoteText l) = false := by
      rw [Bool.eq_false_iff]
      intro hblank
      exact absurd (List.all_eq_true.1 hblank '|' hbar) (by decide)
    show joined true _ ≠ ""
    rw [hblank]
    exact Inline.render_ne_empty (by rwa [String.toList_ofList]) (by decide)

/-- A region that shows something starts as regions of its kind do. -/
theorem soFar_page {k : Kind} (hk : k.runs = true) {content : String} (hcontent : content ≠ "") :
    (k.page "" content).soFar code = k.opening ++ content := by
  have hopened : (k.page "" content).soFar code = (rules code k.state).entry ++ content := by
    show "" ++ opened code k.state content = _
    rw [opened, if_neg hcontent, String.empty_append]
  rw [hopened]
  cases k with
  | fence | heading | rule => cases hk
  | quote | ordered | unordered | paragraph => rfl

/-- A line that is a region of its own starts as these do. -/
theorem begins_line_single {k : Kind} (hl : kindOf l = k) (hk : k = .heading ∨ k = .rule) :
    Begins k.opening (k.wrap (k.content "" [l])) := by
  rcases hk with rfl | rfl
  · obtain ⟨⟨level, text⟩, hheading⟩ := Option.isSome_iff_exists.1 (isSome_of_kindOf.1 hl)
    have hopens : heading l = "<h" ++ (toString level ++ ">" ++ inline (Line.headingText text) ++
        "</h" ++ toString level ++ ">") := by
      apply String.toList_injective
      simp [heading, hheading]
    show Begins "<h" ("" ++ heading l)
    rw [String.empty_append, hopens]
    exact .append _ _
  · exact .refl _

/-- **A row that is read as a line of its kind starts as regions of this kind do.** -/
theorem begins_opening (hrow : Line.isRow l = true) {k : Kind} (hl : kindOf l = k)
    (hfence : k ≠ .fence) (hpar : k ≠ .paragraph) :
    Begins k.opening ((((k.page "" "").keep l).endLine code).soFar code) := by
  have hkeep : (k.page "" "").keep l = { k.page "" "" with token := String.ofList l } := by
    simp [Page.keep, Kind.page]
  rw [hkeep]
  cases hruns : k.runs with
  | true =>
    have hcontent : "" ++ k.line true l ≠ "" := by
      simpa using line_row_ne_empty hrow hl hruns hpar
    rw [endLine_page code hruns hl, decide_eq_true rfl, soFar_page code hruns hcontent]
    exact .append _ _
  | false =>
    have hsingle : k = .heading ∨ k = .rule := by
      revert hruns hfence
      cases k <;> simp [Kind.runs]
    rw [endLine_single code hl hsingle]
    show Begins k.opening ("" ++ k.wrap (k.content "" [l]) ++ "")
    rw [String.append_empty, String.empty_append]
    exact begins_line_single hl hsingle

end Opening

/-! ## The first row of a text -/

/-- What a table starts with: the row of its head. -/
def tableHead (header : List Char) : String := "<table><thead><tr>" ++ rowCells "th" header

/-- What a table with some content shows. -/
theorem soFar_tablePage {content : String} (h : content ≠ "") :
    (tablePage content).soFar code = "<table>" ++ content := by
  show "" ++ (if content = "" then "" else (rules code (.block .table)).entry ++ content) = _
  rw [if_neg h, String.empty_append]
  rfl

theorem tableHead_eq (header : List Char) :
    "<table>" ++ ("<thead>" ++ rowMarkup "th" header ++ "</thead>") =
      tableHead header ++ "</tr></thead>" := by
  unfold tableHead rowMarkup
  apply String.toList_injective
  simp

/-- A row that is read as a table is the head of one. -/
theorem soFar_header {l : List Char} (hrow : Line.isRow l = true)
    (hheader : Line.isSeparator l = false) :
    (((tablePage "").keep l).endLine code).soFar code = tableHead l ++ "</tr></thead>" := by
  have hne : "<thead>" ++ rowMarkup "th" l ++ "</thead>" ≠ "" := by simp
  rw [endLine_header code hrow hheader, soFar_tablePage code hne]
  exact tableHead_eq l

/-- **What a row starts with that a separator follows**: the head of a table if the row has no
kind, and otherwise what its kind starts with. -/
theorem begins_finish_row {first second : List Char} (rest : List (List Char))
    (hrow : Line.isRow first = true) (hfence : Line.opensFence first = false)
    (hfirst : Line.isSeparator first = false) (hsecond : Line.isSeparator second = true) :
    Begins (if kindOf first = .paragraph then tableHead first ++ "</tr></thead>"
        else (kindOf first).opening)
      ((Page.scan code {} (first :: second :: rest)).finish code) := by
  have htable : Shape.table.fits first (some second) = true := by
    simp [Shape.fits, hrow, hsecond]
  refine .trans ?_ (Page.begins_finish_scan code
    ((Page.line code first (some second) {}).endLine code) (second :: rest))
  rw [line_first_row code hfence htable]
  split
  · rw [soFar_header code hrow hfirst]
    exact .refl _
  · rename_i hpar
    exact begins_opening code hrow rfl (kindOf_ne_fence hfence) hpar

theorem prefix_tableHead (header : List Char) : ['<', 't'] <+: (tableHead header).toList := by
  unfold tableHead
  simp

/-- Markup that starts as regions of a kind do does not start with a table. -/
theorem not_begins_table {k : Kind} (hpar : k ≠ .paragraph) {m : String}
    (h : Begins k.opening m) : ¬ ['<', 't'] <+: m.toList := by
  obtain ⟨after, hafter⟩ := h
  rw [← hafter]
  cases k with
  | paragraph => exact absurd rfl hpar
  | fence | heading | rule | quote | ordered | unordered => simp [Kind.opening]

/-- A line without kind has no shape but that of a table. -/
theorem kindOf_eq_paragraph_iff (l : List Char) (following : Option (List Char)) :
    kindOf l = .paragraph ↔ ∀ s : Shape, s ≠ .table → s.fits l following = false := by
  have hshape : kindOf l = .paragraph ↔ (kindOf l).shape = none := by
    cases kindOf l <;> simp [Kind.shape]
  have hall : ∀ s : Shape, s ∈ Shape.all := by
    intro s
    cases s <;> decide
  rw [hshape, ← otherShape_table_eq l following, otherShape, List.find?_eq_none]
  simp [hall]

end Block

/-! ## Answers -/

/-- The cursor stays behind what markup starts with, if that ends in a tag that is no break. -/
theorem begins_withCursor {front : List Char} {c : Char} (hc : c ≠ 'r') {x m : String}
    (hx : x.toList = front ++ [c, '>']) (h : Block.Begins x m) : Block.Begins x (withCursor m) := by
  obtain ⟨after, hafter⟩ := h
  have hreverse : m.toList.reverse = after.reverse ++ '>' :: c :: front.reverse := by
    simp [← hafter, hx]
  unfold withCursor Block.Begins
  rw [hreverse, dropBreaks_append_tag hc, hx, String.toList_append, String.toList_ofList]
  exact ⟨(dropBreaks after.reverse).reverse ++ typingCursor.toList, by simp⟩

/-- The cursor starts as no other tag does. -/
theorem begins_of_withCursor {c : Char} (hlt : c ≠ '<') (hc : c ≠ 's') {m : String}
    (h : ['<', c] <+: (withCursor m).toList) : ['<', c] <+: m.toList := by
  have hkept : (dropBreaks m.toList.reverse).reverse <+: m.toList := by
    have hsuffix := dropBreaks_suffix m.toList.reverse
    rwa [← List.reverse_prefix, List.reverse_reverse] at hsuffix
  rw [withCursor, String.toList_append, String.toList_ofList] at h
  cases hfront : (dropBreaks m.toList.reverse).reverse with
  | nil =>
    rw [hfront] at h
    exact absurd h (by simp [typingCursor, hc])
  | cons a front =>
    rw [hfront] at h hkept
    cases front with
    | nil => exact absurd h (by simp [typingCursor, hlt])
    | cons b front =>
      have hpair : '<' = a ∧ c = b := by simpa using h
      rw [← hpair.1, ← hpair.2] at hkept
      exact List.IsPrefix.trans ⟨front, rfl⟩ hkept

/-- **A row that a separator follows starts a table exactly if it has no other shape.** -/
theorem render_row_iff (o : Options) {text : String} {first second : List Char}
    {rest : List (List Char)}
    (hlines : splitOn '\n' (unifyLineEnds text.toList) = first :: second :: rest)
    (hrow : Line.isRow first = true) (hfence : Line.opensFence first = false)
    (hfirst : Line.isSeparator first = false) (hsecond : Line.isSeparator second = true) :
    Block.Begins (Block.tableHead first) (render o text) ↔
      ∀ s : Shape, s ≠ .table → s.fits first (some second) = false := by
  have hne : second ≠ [] := by
    rintro rfl
    exact absurd hsecond (by decide)
  have hlines' : splitOn '\n' (unifyLineEnds text.toList) = [first] ++ second :: rest := hlines
  obtain ⟨rest', hprepared⟩ := splitOn_prepare_of_ne_nil hlines' hne
  have hbegins := Block.begins_finish_row o.code rest' hrow hfence hfirst hsecond
  rw [← List.singleton_append, ← hprepared, ← Block.run_eq_finish] at hbegins
  have hclosed : (Block.tableHead first ++ "</tr></thead>").toList =
      (Block.tableHead first ++ "</tr></thea").toList ++ ['d', '>'] := by
    rw [String.toList_append, String.toList_append, List.append_assoc]
    rfl
  rw [← Block.kindOf_eq_paragraph_iff]
  constructor
  · intro h
    by_contra hpar
    rw [if_neg hpar] at hbegins
    have htag : ['<', 't'] <+: (render o text).toList :=
      List.IsPrefix.trans (Block.prefix_tableHead first) h
    refine Block.not_begins_table hpar hbegins ?_
    unfold render at htag
    dsimp only at htag
    split at htag
    · exact begins_of_withCursor (by decide) (by decide) htag
    · exact htag
  · intro hpar
    rw [if_pos hpar] at hbegins
    refine .trans (.append _ "</tr></thead>") ?_
    unfold render
    dsimp only
    split
    · exact begins_withCursor (by decide) hclosed hbegins
    · exact hbegins

/-- A row with inline markup, which is nothing but a row. -/
theorem render_row_plain :
    splitOn '\n' (unifyLineEnds "*a* | b\r\n---|---".toList) =
        ["*a* | b".toList, "---|---".toList] ∧
      Line.isRow "*a* | b".toList = true ∧ Line.opensFence "*a* | b".toList = false ∧
      Line.isSeparator "*a* | b".toList = false ∧ Line.isSeparator "---|---".toList = true ∧
      Block.Begins (Block.tableHead "*a* | b".toList)
        (render .streaming "*a* | b\r\n---|---") := by
  have hlines : splitOn '\n' (unifyLineEnds "*a* | b\r\n---|---".toList) =
      ["*a* | b".toList, "---|---".toList] := by decide
  have hrow : Line.isRow "*a* | b".toList = true := by decide
  have hfence : Line.opensFence "*a* | b".toList = false := by decide
  have hfirst : Line.isSeparator "*a* | b".toList = false := by decide
  have hsecond : Line.isSeparator "---|---".toList = true := by decide
  refine ⟨hlines, hrow, hfence, hfirst, hsecond, ?_⟩
  refine (render_row_iff .streaming hlines hrow hfence hfirst hsecond).2 fun s hs => ?_
  cases s with
  | table => exact absurd rfl hs
  | fence | heading | rule | quote | ordered | unordered => decide

/-- A row that is also a heading is no table. -/
theorem not_begins_render_heading :
    splitOn '\n' (unifyLineEnds "# a | b\n|---|---|".toList) =
        ["# a | b".toList, "|---|---|".toList] ∧
      Line.isRow "# a | b".toList = true ∧ Line.opensFence "# a | b".toList = false ∧
      Line.isSeparator "# a | b".toList = false ∧ Line.isSeparator "|---|---|".toList = true ∧
      ¬ Block.Begins (Block.tableHead "# a | b".toList) (render .final "# a | b\n|---|---|") := by
  unfold Block.Begins
  decide +kernel

end Markup
end AnswerStream
