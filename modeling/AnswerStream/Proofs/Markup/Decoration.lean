import AnswerStream.Proofs.Highlight.Document
import AnswerStream.Proofs.Markup.Origin
import AnswerStream.Proofs.Markup.PageRun

/-!
# Marking up code only decorates

Whether code is marked up makes a difference of `span` tags only.  Without them an answer is
the same markup either way, and the answer that was shown last while it streamed in is the
one that is shown in the end, up to the breaks that the cursor has taken the place of.

## Two pages side by side

The two ways to render a text have tables that differ in how a fence is written, and in
nothing that is read.  But a page looks at what it has written in two places: a line joins
the one before it if there is one, and a region without content has no tags.  So the two
pages are compared after every step (`Page.Alike`), and the relation of their markup says in
addition which content is empty.

The markup of one page is that of the other with different tags around parts of the code
(`Alike`).  Code stands inside an element, which is where dropping breaks comes to an end at
the latest.
-/

namespace AnswerStream
namespace Markup

open Text Scan Highlight

/-! ## Spans taken away -/

/-- Whether a segment is the opening or the closing tag of a span. -/
def Segment.isSpan : Segment → Bool
  | char _ => false
  | tag inside =>
    let name := inside.takeWhile (· ≠ ' ')
    name = "span".toList || name = "/span".toList

/-- Markup without the tags of its spans. -/
def withoutSpans (markup : List Char) : List Char :=
  ((segments markup).filter fun s => !s.isSpan).flatMap Segment.source

theorem withoutSpans_append {m : List Char} (h : MadeOf Tag.Known m) (n : List Char) :
    withoutSpans (m ++ n) = withoutSpans m ++ withoutSpans n := by
  rw [withoutSpans, h.segments_append, List.filter_append, List.flatMap_append]
  rfl

/-- The tags of marked code are those of spans. -/
theorem isSpan_ofCode {t : Tag} (h : t.OfCode) : (Segment.tag t.inside).isSpan = true := by
  rcases h with r | _
  · cases r <;> decide
  · decide

/-- Marked code without its spans is the code. -/
theorem withoutSpans_of_marks {m x : List Char} (h : Marks m x) : withoutSpans m = escaped x := by
  obtain ⟨⟨as, ha, rfl⟩, hx⟩ := h
  have hread := segments_assemble fun a hmem => (ha a hmem).mono fun _ => Tag.OfCode.known
  rw [← hx, withoutSpans, stripTags, hread]
  clear hx hread
  induction as with
  | nil => rfl
  | cons a as ih =>
    obtain ⟨hfits, hrest⟩ := List.forall_mem_cons.1 ha
    rw [List.flatMap_cons, List.filter_append, List.flatMap_append, List.flatMap_append, ih hrest]
    congr 1
    have htext : ∀ cs : List Char,
        ((cs.map Segment.char).filter fun s => !s.isSpan).flatMap Segment.source =
          (cs.map Segment.char).flatMap Segment.text := by
      intro cs
      induction cs with
      | nil => rfl
      | cons c cs ihc => simpa [Segment.isSpan, Segment.source, Segment.text] using ihc
    cases a with
    | char c => exact htext [c]
    | entity name => exact htext _
    | tag t =>
      simp [Atom.segments, isSpan_ofCode (show Tag.OfCode t from hfits), Segment.text]

/-! ## Markup of which the code is marked in different ways -/

/-- What follows code. -/
def codeEnd : List Char := (Tag.closing "code").source

/-- The same markup, with different tags around parts of the code in it. -/
inductive Alike : List Char → List Char → Prop
  | nil : Alike [] []
  | text {m n t : List Char} (h : Alike m n) (made : MadeOf Tag.Known t) :
    Alike (m ++ t) (n ++ t)
  | code {m n a b x : List Char} (h : Alike m n) (left : Marks a x) (right : Marks b x) :
    Alike (m ++ a ++ codeEnd) (n ++ b ++ codeEnd)

theorem madeOf_codeEnd : MadeOf Tag.Known codeEnd := .tag (.closing (by decide))

namespace Alike

theorem refl {m : List Char} (h : MadeOf Tag.Known m) : Alike m m := .text .nil h

theorem symm {m n : List Char} (h : Alike m n) : Alike n m := by
  induction h with
  | nil => exact .nil
  | text _ made ih => exact .text ih made
  | code _ left right ih => exact .code ih right left

theorem madeOf_left {m n : List Char} (h : Alike m n) : MadeOf Tag.Known m := by
  induction h with
  | nil => exact .nil
  | text _ made ih => exact ih.append made
  | code _ left _ ih => exact (ih.append left.known).append madeOf_codeEnd

theorem append {m n m' n' : List Char} (h : Alike m n) (h' : Alike m' n') :
    Alike (m ++ m') (n ++ n') := by
  induction h' with
  | nil => simpa using h
  | text _ made ih =>
    rw [← List.append_assoc, ← List.append_assoc]
    exact .text ih made
  | code _ left right ih =>
    simp only [← List.append_assoc]
    exact .code ih left right

/-- **Without its spans, alike markup is the same.** -/
theorem withoutSpans_eq {m n : List Char} (h : Alike m n) : withoutSpans m = withoutSpans n := by
  induction h with
  | nil => rfl
  | text h _ ih =>
    rw [withoutSpans_append h.madeOf_left, withoutSpans_append h.symm.madeOf_left, ih]
  | code h left right ih =>
    rw [withoutSpans_append (h.madeOf_left.append left.known),
      withoutSpans_append (h.symm.madeOf_left.append right.known),
      withoutSpans_append h.madeOf_left, withoutSpans_append h.symm.madeOf_left, ih,
      withoutSpans_of_marks left, withoutSpans_of_marks right]

/-- Alike markup has the same text after its last code. -/
theorem exists_tail {m n : List Char} (h : Alike m n) :
    m = n ∨ ∃ m' n' t, m = m' ++ codeEnd ++ t ∧ n = n' ++ codeEnd ++ t ∧
      Alike (m' ++ codeEnd) (n' ++ codeEnd) ∧ MadeOf Tag.Known t := by
  induction h with
  | nil => exact Or.inl rfl
  | @text m n t h made ih =>
    rcases ih with rfl | ⟨m', n', t', rfl, rfl, halike, hmade⟩
    · exact Or.inl rfl
    · exact Or.inr ⟨m', n', t' ++ t, by simp, by simp, halike, hmade.append made⟩
  | code h left right _ =>
    exact Or.inr ⟨_, _, [], (List.append_nil _).symm, (List.append_nil _).symm,
      h.code left right, .nil⟩

end Alike

/-! ## The end of markup -/

/-- Markup without the white space and the breaks it ends with. -/
def dropEndBreaks (markup : List Char) : List Char := (dropBreaks markup.reverse).reverse

theorem dropEndBreaks_append_code (m t : List Char) :
    dropEndBreaks (m ++ codeEnd ++ t) = m ++ codeEnd ++ dropEndBreaks t := by
  have hend : codeEnd.reverse = ['>', 'e', 'd', 'o', 'c', '/', '<'] := by decide
  have hdrop := dropBreaks_append_tag (by decide : 'e' ≠ 'r') t.reverse
    (['d', 'o', 'c', '/', '<'] ++ m.reverse)
  unfold dropEndBreaks
  rw [List.reverse_append, List.reverse_append, hend]
  simp only [List.cons_append, List.nil_append] at hdrop ⊢
  rw [hdrop]
  simp [codeEnd, Tag.source, Tag.inside]

/-- All known tags are admitted among the known ones. -/
theorem Tag.admits_known : Tag.Admits Tag.Known := ⟨fun _ h => h, fun _ h _ _ => h⟩

/-- Alike markup stays alike without the breaks at its end. -/
theorem Alike.dropEndBreaks {m n : List Char} (h : Alike m n) :
    Alike (dropEndBreaks m) (dropEndBreaks n) := by
  have hmade : ∀ {t : List Char}, MadeOf Tag.Known t → MadeOf Tag.Known (Markup.dropEndBreaks t) :=
    fun ht => madeOf_dropBreaks Tag.admits_known (by rwa [List.reverse_reverse])
  rcases h.exists_tail with rfl | ⟨m', n', t, rfl, rfl, halike, ht⟩
  · exact .refl (hmade h.madeOf_left)
  · rw [dropEndBreaks_append_code, dropEndBreaks_append_code]
    exact halike.text (hmade ht)

/-! ## Two pages -/

namespace Block

/-- Two ways to mark up code differ in their tags only. -/
def Agree (c c' : String → String → String) : Prop :=
  ∀ label body : String, ∃ x, Marks (c label body).toList x ∧ Marks (c' label body).toList x

/-- The same markup with different tags around code, and neither is empty if the other is
not. -/
structure Same (a b : String) : Prop where
  alike : Alike a.toList b.toList
  empty : a = "" ↔ b = ""

namespace Same

theorem refl {a : String} (h : MadeOf Tag.Known a.toList) : Same a a := ⟨.refl h, Iff.rfl⟩

theorem append {a b a' b' : String} (h : Same a b) (h' : Same a' b') : Same (a ++ a') (b ++ b') := by
  refine ⟨?_, ?_⟩
  · rw [String.toList_append, String.toList_append]
    exact h.alike.append h'.alike
  · rw [String.append_eq_empty_iff, String.append_eq_empty_iff, h.empty, h'.empty]

end Same

/-- Two pages are the same up to the tags around code. -/
structure Page.Alike (pg pg' : Page) : Prop where
  state : pg.state = pg'.state
  token : pg.token = pg'.token
  done : Same pg.done pg'.done
  content : Same pg.content pg'.content

variable {c c' : String → String → String}

/-- The markup of a fence around its code. -/
theorem exists_around_code (text : String) :
    ∃ head tail : List Char, MadeOf Tag.Known head ∧ head ≠ [] ∧ MadeOf Tag.Known tail ∧
      ∀ code : String → String → String, ((Fence.ofToken text).markup code).toList =
        head ++ (code (Fence.ofToken text).label (Fence.ofToken text).body).toList ++ codeEnd ++
          tail := by
  let head := (Tag.opening "div" [("class", "code-block".toList)]).source ++
    (Tag.opening "div" [("class", "code-header".toList)]).source ++
    (Tag.opening "span" [("class", "code-lang".toList)]).source ++
    (Fence.ofToken text).shownLabel.toList ++ (Tag.closing "span").source ++
    (Tag.opening "button" [("class", "copy-code".toList)]).source ++ "Copy".toList ++
    (Tag.closing "button").source ++ (Tag.closing "div").source ++ (Tag.opening "pre" []).source ++
    (Tag.opening "code"
      [("class", "language-".toList ++ (Fence.ofToken text).shownLabel.toList)]).source
  let tail := (Tag.closing "pre").source ++ (Tag.closing "div").source
  have heq : ∀ code : String → String → String, ((Fence.ofToken text).markup code).toList =
      head ++ (code (Fence.ofToken text).label (Fence.ofToken text).body).toList ++ codeEnd ++
        tail := by
    intro code
    rw [toList_markup]
    simp only [head, tail, codeEnd, List.append_assoc]
  -- the tags around code do not depend on the code
  have hblank : ∀ label body : String, MadeOf Tag.Known ((fun _ _ => "") label body : String).toList :=
    fun _ _ => .nil
  have hmade := madeOf_fence Tag.admits_known hblank text
  rw [heq, String.toList_empty, List.append_nil, List.append_assoc] at hmade
  have hhead : MadeOf Tag.Known head := (hmade.of_append (between_lt (fun _ h => h) head _)).1
  exact ⟨head, tail, hhead, by simp [head, Tag.source],
    .append (.tag (.closing (by decide))) (.tag (.closing (by decide))), heq⟩

/-- A fence is the same up to the tags around its code. -/
theorem same_fence (h : Agree c c') (text : String) :
    Same ((Fence.ofToken text).markup c) ((Fence.ofToken text).markup c') := by
  obtain ⟨head, tail, hhead, hne, htail, heq⟩ := exists_around_code text
  obtain ⟨x, hleft, hright⟩ := h (Fence.ofToken text).label (Fence.ofToken text).body
  have hempty : ∀ code, (Fence.ofToken text).markup code ≠ "" := by
    intro code hnil
    have hlist := heq code
    rw [hnil] at hlist
    simp [hne] at hlist
  refine ⟨?_, by simp [hempty]⟩
  rw [heq c, heq c']
  exact ((Alike.refl hhead).code hleft hright).text htail

/-- Only fences have rules that depend on how code is marked up. -/
theorem rules_eq {s : State} (h : s ≠ .block .fence) : rules c s = rules c' s := by
  cases s with
  | paragraph => rfl
  | block s =>
    cases s with
    | fence => exact absurd rfl h
    | table | heading | rule | quote | ordered | unordered => rfl

/-- A token is written the same, up to the tags around code. -/
theorem same_written (h : Agree c c') (k : Token State) :
    Same (Progress.written (table c) none k) (Progress.written (table c') none k) := by
  by_cases hfence : k.source = .block .fence
  · obtain ⟨text, source, target, before, fresh⟩ := k
    cases hfence
    exact same_fence h text
  · have hcode : ∀ label body, MadeOf Tag.Known (c label body).toList := fun label body =>
      let ⟨_, hleft, _⟩ := h label body
      hleft.known
    have hmade := madeOf_written Tag.admits_known (fun text => (Inline.nests_render text).made)
      hcode k
    have hrules : (table c').rules k.source = (table c).rules k.source := rules_eq hfence
    rw [Progress.written] at hmade
    rw [Progress.written, Progress.written, hrules]
    exact .refl hmade

/-- The tags of a region do not depend on how code is marked up. -/
theorem exists_wrapper (s : State) :
    ∃ entry exit : String, MadeOf Tag.Known entry.toList ∧ MadeOf Tag.Known exit.toList ∧
      ∀ code, ((table code).rules s).entry = entry ∧ ((table code).rules s).exit = exit := by
  have htag : ∀ name ∈ blockNames, MadeOf Tag.Known ("<" ++ name ++ ">").toList ∧
      MadeOf Tag.Known ("</" ++ name ++ ">").toList := by
    intro name hname
    have hopen : ("<" ++ name ++ ">").toList = (Tag.opening name []).source := by
      simp [Tag.source, Tag.inside]
    have hclose : ("</" ++ name ++ ">").toList = (Tag.closing name).source := by
      simp [Tag.source, Tag.inside]
    rw [hopen, hclose]
    exact ⟨.tag (.bare ((by decide : ∀ n ∈ blockNames, n ∈ Tag.bareNames) name hname)),
      .tag (.closing ((by decide : ∀ n ∈ blockNames, n ∈ Tag.closedNames) name hname))⟩
  cases s with
  | paragraph => exact ⟨"", "", .nil, .nil, fun _ => ⟨rfl, rfl⟩⟩
  | block s =>
    cases s with
    | fence | heading | rule => exact ⟨"", "", .nil, .nil, fun _ => ⟨rfl, rfl⟩⟩
    | table =>
      obtain ⟨hentry, hexit⟩ := htag "table" (by decide)
      exact ⟨_, _, hentry, hexit, fun _ => ⟨rfl, rfl⟩⟩
    | quote =>
      obtain ⟨hentry, hexit⟩ := htag "blockquote" (by decide)
      exact ⟨_, _, hentry, hexit, fun _ => ⟨rfl, rfl⟩⟩
    | ordered =>
      obtain ⟨hentry, hexit⟩ := htag "ol" (by decide)
      exact ⟨_, _, hentry, hexit, fun _ => ⟨rfl, rfl⟩⟩
    | unordered =>
      obtain ⟨hentry, hexit⟩ := htag "ul" (by decide)
      exact ⟨_, _, hentry, hexit, fun _ => ⟨rfl, rfl⟩⟩

/-- A region is closed the same. -/
theorem same_wrap (s : State) {a b : String} (h : Same a b) :
    Same ((table c).wrap { state := s, pair := none, content := a })
      ((table c').wrap { state := s, pair := none, content := b }) := by
  obtain ⟨entry, exit, hentry, hexit, hrules⟩ := exists_wrapper s
  unfold Table.wrap
  dsimp only
  by_cases ha : a = ""
  · rw [if_pos ha, if_pos (h.empty.1 ha)]
    exact .refl .nil
  · rw [if_neg ha, if_neg fun hb => ha (h.empty.2 hb), (hrules c).1, (hrules c).2, (hrules c').1,
      (hrules c').2]
    exact ((Same.refl hentry).append h).append (.refl hexit)

namespace Page.Alike

variable {pg pg' : Page}

theorem tokenTo (h : pg.Alike pg') (target : State) : pg.tokenTo target = pg'.tokenTo target := by
  simp [Page.tokenTo, h.state, h.token, h.content.empty]

theorem write (hc : Agree c c') (h : pg.Alike pg') (target : State) :
    (pg.write c target).Alike (pg'.write c' target) where
  state := h.state
  token := rfl
  done := h.done
  content := by
    have hwritten := same_written hc (pg.tokenTo target)
    rw [Page.write, Page.write, ← h.tokenTo]
    exact h.content.append hwritten

theorem closed (h : pg.Alike pg') : Same (pg.closed c) (pg'.closed c') := by
  rw [Page.closed, Page.closed, ← h.state]
  exact h.done.append (same_wrap pg.state h.content)

theorem move (hc : Agree c c') (h : pg.Alike pg') (s : State) :
    (pg.move c s).Alike (pg'.move c' s) :=
  ⟨rfl, rfl, (h.write hc s).closed, .refl .nil⟩

theorem keep (h : pg.Alike pg') (text : List Char) : (pg.keep text).Alike (pg'.keep text) :=
  ⟨h.state, congrArg (· ++ String.ofList text) h.token, h.done, h.content⟩

theorem settle (hc : Agree c c') (h : pg.Alike pg') (l : List Char)
    (following : Option (List Char)) (hops : Nat) :
    (pg.settle c l following hops).Alike (pg'.settle c' l following hops) := by
  induction hops generalizing pg pg' with
  | zero =>
    unfold Page.settle
    rw [← h.state]
    split
    · exact h
    · exact h.move hc _
    · exact h
  | succ hops ih =>
    unfold Page.settle
    rw [← h.state]
    split
    · exact h
    · exact h.move hc _
    · exact ih (h.move hc _)

theorem line (hc : Agree c c') (h : pg.Alike pg') (l : List Char)
    (following : Option (List Char)) : (pg.line c l following).Alike (pg'.line c' l following) := by
  unfold Page.line
  rw [← h.state]
  split
  · split
    · exact h.move hc _
    · exact h.keep l
  · exact (h.settle hc l following hopLimit).keep l

theorem endLine (hc : Agree c c') (h : pg.Alike pg') :
    (pg.endLine c).Alike (pg'.endLine c') := by
  unfold Page.endLine
  rw [← h.state]
  split
  · exact h.move hc _
  · exact h.move hc _
  · exact h.keep _
  · exact h.write hc _

/-- Reading lines keeps two pages alike. -/
theorem scan (hc : Agree c c') (h : pg.Alike pg') (lines : List (List Char)) :
    (pg.scan c lines).Alike (pg'.scan c' lines) := by
  induction lines generalizing pg pg' with
  | nil => exact h
  | cons l lines ih =>
    cases lines with
    | nil =>
      rw [Page.scan, Page.scan]
      split
      · exact h
      · exact h.line hc l none
    | cons l' lines =>
      rw [Page.scan, Page.scan]
      exact ih ((h.line hc l _).endLine hc)

end Page.Alike

/-- The markup of a text is the same, up to the tags around code. -/
theorem alike_run (h : Agree c c') (text : String) :
    Alike ((table c).run text).toList ((table c').run text).toList := by
  have hstart : Page.Alike {} {} := ⟨rfl, rfl, .refl .nil, .refl .nil⟩
  rw [run_eq_finish, run_eq_finish]
  exact ((hstart.scan h (splitOn '\n' text.toList)).write h .paragraph).closed.alike

end Block

/-! ## Answers -/

/-- Code is marked up with tags of spans, or not at all. -/
theorem Options.agree_code (o o' : Options) : Block.Agree o.code o'.code := by
  have hmarks : ∀ (o : Options) (label body : String), Marks (o.code label body).toList body.toList := by
    intro o label body
    unfold Options.code
    split
    · exact marks_under_tag label body
    · rw [toList_escape_eq]
      exact .text _
  exact fun label body => ⟨body.toList, hmarks o label body, hmarks o' label body⟩

theorem toList_withCursor (markup : String) :
    (withCursor markup).toList = dropEndBreaks markup.toList ++ typingCursor.toList := by
  rw [withCursor, String.toList_append, String.toList_ofList]
  rfl

theorem withoutSpans_typingCursor : withoutSpans typingCursor.toList = [] := by decide

/-- The cursor shows nothing. -/
theorem withoutSpans_withCursor {m : String} (h : MadeOf Tag.Known (dropEndBreaks m.toList)) :
    withoutSpans (withCursor m).toList = withoutSpans (dropEndBreaks m.toList) := by
  rw [toList_withCursor, withoutSpans_append h, withoutSpans_typingCursor, List.append_nil]

theorem render_of_typing {o : Options} (h : o.typingCursor = true) (text : String) :
    render o text = withCursor ((Block.table o.code).run (prepare text)) := by
  rw [render, if_pos h]

theorem render_of_not_typing {o : Options} (h : o.typingCursor = false) (text : String) :
    render o text = (Block.table o.code).run (prepare text) := by
  rw [render, if_neg (by simp [h])]

/-- **Marking up code only decorates.**  Without the tags of spans an answer is the same
whether its code is marked up or not, and what is shown last while it streams in is what is
shown in the end, without the breaks in place of which the cursor stands. -/
theorem withoutSpans_render (text : String) :
    (∀ typing, withoutSpans (render ⟨typing, true⟩ text).toList =
        withoutSpans (render ⟨typing, false⟩ text).toList) ∧
      withoutSpans (render .streaming text).toList =
        withoutSpans (dropEndBreaks (render .final text).toList) := by
  have halike : ∀ o o' : Options, Alike ((Block.table o.code).run (prepare text)).toList
      ((Block.table o'.code).run (prepare text)).toList :=
    fun o o' => Block.alike_run (o.agree_code o') (prepare text)
  refine ⟨fun typing => ?_, ?_⟩
  · have hrun := halike ⟨typing, true⟩ ⟨typing, false⟩
    cases typing with
    | false =>
      rw [render_of_not_typing rfl, render_of_not_typing rfl]
      exact hrun.withoutSpans_eq
    | true =>
      have hend := hrun.dropEndBreaks
      rw [render_of_typing rfl, render_of_typing rfl, withoutSpans_withCursor hend.madeOf_left,
        withoutSpans_withCursor hend.symm.madeOf_left]
      exact hend.withoutSpans_eq
  · have hend := (halike .streaming .final).dropEndBreaks
    rw [render_of_typing rfl, render_of_not_typing rfl, withoutSpans_withCursor hend.madeOf_left]
    exact hend.withoutSpans_eq

end Markup
end AnswerStream
