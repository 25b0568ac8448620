import AnswerStream.Proofs.Markup.PlainAnswer

/-!
# Fenced code

A fence at the beginning of a text shows its lines as they are, and what follows it is
rendered as on its own (`render_fence`).

## What is read where

The opening line is taken whole, whatever else it looks like: a fence is the first shape that
is tried (`line_opening`).  Inside the fence only a line that closes it is looked at, so
`finish_scan_fence` reads the body, and what comes after the fence is read by a page that is
empty but for the markup of the fence.  A page never looks at the markup that is done
(`finish_scan_after`), so from there on it is the page with which the rest of the text would
be started.

## The label

The first word of the opening line is what stands after its backticks and white space, up to
the next white space.  `OpeningLine` says so by cutting the line into pieces, and
`fenceLabel_text` finds the word that the label is made of.
-/

namespace AnswerStream
namespace Markup

open Text Scan

namespace Block

/-! ## What is done already -/

namespace Page

variable (code : String → String → String)

/-- A page with markup before its own. -/
def after (done : String) (pg : Page) : Page := { pg with done := done ++ pg.done }

variable {done : String}

theorem write_after (pg : Page) (s : State) :
    (pg.after done).write code s = (pg.write code s).after done := rfl

theorem closed_after (pg : Page) : (pg.after done).closed code = done ++ pg.closed code :=
  String.append_assoc ..

theorem move_after (pg : Page) (s : State) :
    (pg.after done).move code s = (pg.move code s).after done := by
  rw [move, write_after, closed_after]
  rfl

theorem settle_after (l : List Char) (following : Option (List Char)) (hops : Nat) (pg : Page) :
    (pg.after done).settle code l following hops =
      (pg.settle code l following hops).after done := by
  have hstate : (pg.after done).state = pg.state := rfl
  induction hops generalizing pg with
  | zero =>
    unfold settle
    rw [hstate, move_after]
    split <;> rfl
  | succ hops ih =>
    unfold settle
    rw [hstate]
    split
    · rfl
    · exact move_after code pg _
    · rw [move_after]
      exact ih _ rfl

theorem line_after (l : List Char) (following : Option (List Char)) (pg : Page) :
    (pg.after done).line code l following = (pg.line code l following).after done := by
  have hstate : (pg.after done).state = pg.state := rfl
  unfold line
  rw [hstate, settle_after, move_after]
  split
  · split <;> rfl
  · rfl

theorem endLine_after (pg : Page) : (pg.after done).endLine code = (pg.endLine code).after done := by
  have hstate : (pg.after done).state = pg.state := rfl
  unfold endLine
  rw [hstate, move_after]
  split <;> rfl

theorem scan_after (pg : Page) (lines : List (List Char)) :
    (pg.after done).scan code lines = (pg.scan code lines).after done := by
  induction lines generalizing pg with
  | nil => rfl
  | cons l lines ih =>
    cases lines with
    | nil =>
      rw [scan, scan, line_after]
      split <;> rfl
    | cons l' lines => rw [scan, scan, line_after, endLine_after, ih]

theorem finish_after (pg : Page) : (pg.after done).finish code = done ++ pg.finish code := by
  rw [finish, write_after, closed_after]
  rfl

/-- **Lines are read without regard to the markup that is done.** -/
theorem finish_scan_after (pg : Page) (lines : List (List Char)) :
    ((pg.after done).scan code lines).finish code = done ++ (pg.scan code lines).finish code := by
  rw [scan_after, finish_after]

end Page

/-! ## A fence and the lines after it -/

/-- A line that opens a fence is taken whole where a text starts, whatever comes after it. -/
theorem line_opening (code : String → String → String) {opening : List Char}
    (hopens : Line.opensFence opening = true) (following : Option (List Char)) :
    Page.line code opening following {} = fencePage "" opening [] := by
  have hshape : otherShape opening following none = some .fence :=
    List.find?_cons_of_pos hopens
  have hnext : nextState opening following State.paragraph = some (.block .fence) := by
    rw [nextState, hshape]
    rfl
  have hsettle : ({} : Page).settle code opening following hopLimit =
      ({} : Page).move code (.block .fence) := settle_of_fence code hopLimit hnext
  have hkinds : Kind.fence ≠ Kind.paragraph := by decide
  have hmove : ({} : Page).move code (.block .fence) = Kind.fence.page "" "" :=
    move_page code rfl hkinds "" ""
  unfold Page.line
  rw [if_neg (by simp), hsettle, hmove]
  simp [fencePage, Page.keep, Kind.page]

/-- Lines that start with a fence show it, and those after it as if they came first. -/
theorem finish_scan_opening (code : String → String → String) {opening : List Char}
    {body after : List (List Char)} {closing : List Char}
    (hlines : ∀ l ∈ opening :: (body ++ closing :: after), IsLine l)
    (hopens : Line.opensFence opening = true)
    (hbody : ∀ l ∈ body, Line.closesFence l = false) (hcloses : Line.closesFence closing = true)
    (hlast : (closing :: after).getLast? ≠ some []) :
    (Page.scan code {} (opening :: (body ++ closing :: after))).finish code =
      fenceMarkup code (opening :: body) ++ (Page.scan code {} after).finish code := by
  obtain ⟨hopening, hrest⟩ := List.forall_mem_cons.1 hlines
  have htakes : ∀ l ∈ body, Kind.fence.takes l = true := fun l hl => by
    simp [Kind.takes, hbody l hl]
  have hstops : Kind.fence.takes closing = false := by simp [Kind.takes, hcloses]
  have htake : (body ++ closing :: after).takeWhile Kind.fence.takes = body := by
    rw [List.takeWhile_append_of_pos htakes, List.takeWhile_cons_of_neg (by simp [hstops]),
      List.append_nil]
  have hafter : Kind.fence.rest (body ++ closing :: after) = after := by
    rw [Kind.rest, List.dropWhile_append_of_pos htakes,
      List.dropWhile_cons_of_neg (by simp [hstops])]
    rfl
  have hfence := finish_scan_fence code hopening hrest (by simp) (by simpa using hlast) [] ""
  rw [htake, hafter] at hfence
  simp only [List.nil_append] at hfence
  have hopened : Page.scan code {} (opening :: (body ++ closing :: after)) =
      Page.scan code (fencePage "" opening [[]]) (body ++ closing :: after) := by
    cases hlines' : body ++ closing :: after with
    | nil => simp at hlines'
    | cons l lines => rw [Page.scan, line_opening code hopens, endLine_fence, List.nil_append]
  have hpage : Kind.paragraph.page ("" ++ fenceMarkup code (opening :: body)) "" =
      Page.after (fenceMarkup code (opening :: body)) {} := by
    simp [Kind.page, Page.after, Kind.state, Kind.shape]
  rw [hopened, hfence, hpage, Page.finish_scan_after]

/-! ## The label -/

/-- A line that opens a fence, cut into what stands on it. -/
structure OpeningLine where
  /-- The white space before the backticks. -/
  indent : List Char
  /-- The backticks. -/
  ticks : List Char
  /-- The white space after them. -/
  gap : List Char
  /-- The first word, which is empty if there is none. -/
  word : List Char
  /-- What follows the first word. -/
  more : List Char
  indent_blank : ∀ c ∈ indent, isBlank c = true
  ticks_eq : ∀ c ∈ ticks, c = '\x60'
  three_le : 3 ≤ ticks.length
  ticks_end : ∀ c ∈ (gap ++ word).head?, c ≠ '\x60'
  gap_blank : ∀ c ∈ gap, isBlank c = true
  word_ink : ∀ c ∈ word, isBlank c = false
  word_end : ∀ c ∈ more.head?, isBlank c = true
  more_nil : word = [] → more = []

/-- The line itself. -/
def OpeningLine.text (o : OpeningLine) : List Char :=
  o.indent ++ (o.ticks ++ (o.gap ++ (o.word ++ o.more)))

/-- Every line that opens a fence can be cut in this way. -/
theorem exists_openingLine {opening : List Char} (hopens : Line.opensFence opening = true) :
    ∃ o : OpeningLine, o.text = opening := by
  obtain ⟨indent, marked, rfl, hindent, hmarked⟩ := exists_span isBlank opening
  obtain ⟨ticks, content, rfl, hticks, hcontent⟩ := exists_span (· == '\x60') marked
  obtain ⟨gap, text, rfl, hgap, htext⟩ := exists_span isBlank content
  obtain ⟨word, more, rfl, hword, hmore⟩ := exists_span (fun c => !isBlank c) text
  have hthree : ['\x60', '\x60', '\x60'] <+: ticks ++ (gap ++ (word ++ more)) := by
    have hprefix := List.isPrefixOf_iff_prefix.1 hopens
    rwa [trimStart, dropWhile_append_eq hindent hmarked] at hprefix
  refine ⟨{
    indent, ticks, gap, word, more
    indent_blank := hindent
    ticks_eq := fun c hc => beq_iff_eq.1 (hticks c hc)
    three_le := ?_
    ticks_end := ?_
    gap_blank := hgap
    word_ink := fun c hc => by simpa using hword c hc
    word_end := fun c hc => by simpa using hmore c hc
    more_nil := ?_ }, rfl⟩
  · exact length_le_of_prefix hthree (by simp) hcontent
  · intro c hc
    have hhead : c ∈ (gap ++ (word ++ more)).head? := by
      rw [← List.append_assoc, List.head?_append, Option.mem_def.1 hc]
      exact rfl
    simpa using hcontent c hhead
  · -- a text that does not start with white space has a first word, unless it is empty
    rintro rfl
    cases more with
    | nil => rfl
    | cons c more =>
      have hblank := hmore c rfl
      have hink := htext c rfl
      simp [hink] at hblank

namespace OpeningLine

variable (o : OpeningLine)

/-- The backticks come first when the line is trimmed. -/
theorem trim_text : trim o.text = o.ticks ++ trimEnd (o.gap ++ (o.word ++ o.more)) := by
  have hticks : ∀ c ∈ o.ticks, isBlank c = false := fun c hc => by
    rw [o.ticks_eq c hc]
    decide
  have hne : o.ticks ≠ [] := by
    intro h
    have hthree := o.three_le
    simp [h] at hthree
  have hstart : trimStart o.text = o.ticks ++ (o.gap ++ (o.word ++ o.more)) := by
    refine dropWhile_append_eq o.indent_blank ?_
    rw [head?_append_left hne]
    exact fun c hc => hticks c (List.mem_of_mem_head? hc)
  rw [trim, hstart]
  exact dropEndWhile_append_of_last (fun c hc => hticks c (List.mem_of_getLast? hc)) _

/-- White space at the end does not touch the first word. -/
theorem trimEnd_word (hword : o.word ≠ []) :
    trimEnd (o.gap ++ (o.word ++ o.more)) = o.gap ++ (o.word ++ trimEnd o.more) := by
  obtain ⟨before, c, hc⟩ := (List.eq_nil_or_concat o.word).resolve_left hword
  rw [← List.append_assoc, ← List.append_assoc]
  refine dropEndWhile_append_of_last (fun d hd => o.word_ink d ?_) _
  rw [hc] at hd ⊢
  simp at hd
  simp [hd]

/-- **The label of a fence is made of the first word of its opening line.** -/
theorem fenceLabel_text : Line.fenceLabel o.text = o.word.filter Line.inLabel := by
  have hticks : ∀ c ∈ o.ticks, (c == '\x60') = true := fun c hc => beq_iff_eq.2 (o.ticks_eq c hc)
  unfold Line.fenceLabel
  dsimp only
  rw [trim_text]
  by_cases hword : o.word = []
  · -- nothing but white space follows the backticks
    have hgap : trimEnd (o.gap ++ (o.word ++ o.more)) = [] := by
      rw [o.more_nil hword, hword]
      exact dropEndWhile_eq_nil (by simpa using o.gap_blank)
    rw [hgap, dropWhile_append_eq hticks (by simp), hword]
    rfl
  · have hmore : ∀ c ∈ (trimEnd o.more).head?, (!isBlank c) = false := by
      obtain ⟨tail, htail, -⟩ := dropEndWhile_append isBlank o.more
      intro c hc
      have hne : trimEnd o.more ≠ [] := by
        intro h
        rw [h] at hc
        cases hc
      have hfirst : o.more.head? = (trimEnd o.more).head? := by
        conv => lhs; rw [htail]
        exact head?_append_left hne tail
      simp [o.word_end c (hfirst ▸ hc)]
    have hafter : ∀ c ∈ (o.gap ++ (o.word ++ trimEnd o.more)).head?, (c == '\x60') = false := by
      rw [← List.append_assoc, head?_append_left (by simp [hword])]
      simpa using o.ticks_end
    have hink : ∀ c ∈ (o.word ++ trimEnd o.more).head?, isBlank c = false := by
      rw [head?_append_left hword]
      exact fun c hc => o.word_ink c (List.mem_of_mem_head? hc)
    rw [o.trimEnd_word hword, dropWhile_append_eq hticks hafter, trimStart,
      dropWhile_append_eq o.gap_blank hink, takeWhile_append_eq (by simpa using o.word_ink) hmore]

end OpeningLine

/-! ## The lines of an answer -/

/-- The lines of a text that is scanned; an empty text has none. -/
def scanned (text : String) : List (List Char) :=
  if (prepare text).toList = [] then [] else splitOn '\n' (prepare text).toList

theorem finish_scanned (code : String → String → String) (text : String) :
    (Page.scan code {} (scanned text)).finish code = (table code).run (prepare text) := by
  rw [run_eq_finish, scanned]
  split
  · rename_i hnil
    rw [hnil]
    rfl
  · rfl

theorem getLast?_scanned (text : String) : (scanned text).getLast? ≠ some [] := by
  unfold scanned
  split
  · simp
  · exact getLast?_splitOn_ne ‹_› (getLast?_prepare text)

theorem isLine_of_mem_scanned {text : String} {l : List Char} (h : l ∈ scanned text) : IsLine l := by
  unfold scanned at h
  split at h
  · cases h
  · exact isLine_of_mem_splitOn h

/-- What follows a line that stays where a text is trimmed is scanned after it. -/
theorem scanned_after {before after : String} (hlast : before.toList.getLast? ≠ some '\n')
    (hne : before.toList ≠ [])
    (hbefore : '\r' ∉ before.toList) (hafter : '\r' ∉ after.toList) :
    scanned (before ++ "\n" ++ after) = splitOn '\n' before.toList ++ scanned after := by
  have hnewline : dropEndWhile (· == '\n') ('\n' :: after.toList) =
      if (prepare after).toList = [] then [] else '\n' :: (prepare after).toList := by
    rw [toList_prepare hafter]
    exact dropEndWhile_append_eq _ ['\n'] after.toList
  have hall : (prepare (before ++ "\n" ++ after)).toList =
      before.toList ++ dropEndWhile (· == '\n') ('\n' :: after.toList) := by
    rw [toList_prepare (by simp [hbefore, hafter])]
    simp [dropNewlines_append hlast]
  rw [scanned, scanned, hall, hnewline, if_neg (by simp [hne])]
  split
  · simp
  · exact splitOn_append '\n' _ _

/-- The line with which a fence is closed here. -/
def closing : List Char := ['\x60', '\x60', '\x60']

/-- The lines of an answer that starts with a fence. -/
theorem scanned_fence {opening body rest : String} (hopening : '\r' ∉ opening.toList)
    (hbody : '\r' ∉ body.toList) (hrest : '\r' ∉ rest.toList) (hline : IsLine opening.toList) :
    scanned (opening ++ "\n" ++ body ++ "\n```\n" ++ rest) =
      opening.toList :: (splitOn '\n' body.toList ++ closing :: scanned rest) := by
  have htext : opening ++ "\n" ++ body ++ "\n```\n" ++ rest =
      opening ++ "\n" ++ body ++ "\n```" ++ "\n" ++ rest := by
    apply String.toList_injective
    simp
  have hfence : (opening ++ "\n" ++ body ++ "\n```").toList =
      opening.toList ++ '\n' :: (body.toList ++ '\n' :: closing) := by
    simp [closing]
  have hclosing : splitOn '\n' closing = [closing] := by decide
  rw [htext, scanned_after (by rw [hfence]; simp [closing, List.getLast?_cons]) (by simp)
    (by simp [hopening, hbody]) hrest, hfence, splitOn_append, splitOn_append, splitOn_line hline,
    hclosing]
  simp

end Block

/-! ## Answers -/

/-- **A fence at the beginning of an answer carries exactly its body**, and the rest is rendered
as on its own. -/
theorem render_fence (highlightCode : Bool) {opening body rest : String}
    (hreturn : ∀ text ∈ [opening, body, rest], '\r' ∉ text.toList)
    (hline : '\n' ∉ opening.toList) (hopens : Line.opensFence opening.toList = true)
    (hbody : ∀ l ∈ splitOn '\n' body.toList, Line.closesFence l = false) :
    ∃ o : Block.OpeningLine, o.text = opening.toList ∧
      render { typingCursor := false, highlightCode }
          (opening ++ "\n" ++ body ++ "\n```\n" ++ rest) =
        Block.Fence.markup
            (fun label code => if highlightCode then Highlight.highlight label code else escape code)
            { label := String.ofList (o.word.filter Line.inLabel), body } ++
          render { typingCursor := false, highlightCode } rest := by
  obtain ⟨o, ho⟩ := Block.exists_openingLine hopens
  simp only [List.forall_mem_cons] at hreturn
  obtain ⟨hopening, hreturn, hrest, -⟩ := hreturn
  have hlines : ∀ l ∈ opening.toList ::
      (splitOn '\n' body.toList ++ Block.closing :: Block.scanned rest), IsLine l := by
    simp only [List.forall_mem_cons, List.forall_mem_append]
    exact ⟨hline, fun l hl => isLine_of_mem_splitOn hl, by simp [IsLine, Block.closing],
      fun l hl => Block.isLine_of_mem_scanned hl⟩
  have hlast : (Block.closing :: Block.scanned rest).getLast? ≠ some [] := by
    have hscanned := Block.getLast?_scanned rest
    rw [List.getLast?_cons]
    cases hl : (Block.scanned rest).getLast? with
    | none => simp [Block.closing]
    | some l => rwa [hl] at hscanned
  refine ⟨o, ho, ?_⟩
  rw [render, render, if_neg (by simp), if_neg (by simp), ← Block.finish_scanned,
    ← Block.finish_scanned, Block.scanned_fence hopening hreturn hrest hline,
    Block.finish_scan_opening _ hlines hopens hbody (by decide) hlast, ← o.fenceLabel_text, ho,
    Block.fenceMarkup, List.tail_cons, unlines_splitOn, String.ofList_toList]
  rfl

/-- A body with empty lines and lines that look like blocks, and a table after the fence. -/
theorem render_fence_blank_lines :
    render { typingCursor := false, highlightCode := false }
        ("  ```` c++! x" ++ "\n" ++ "\n# a\n~~~\n``\n" ++ "\n```\n" ++ "|b|\n|-|") =
      Block.Fence.markup (fun _ code => escape code)
          { label := "c++", body := "\n# a\n~~~\n``\n" } ++
        render { typingCursor := false, highlightCode := false } "|b|\n|-|" := by
  obtain ⟨o, ho, hrender⟩ := @render_fence false "  ```` c++! x" "\n# a\n~~~\n``\n" "|b|\n|-|"
    (by decide) (by decide) (by decide) (by decide)
  have hlabel : String.ofList (o.word.filter Line.inLabel) = "c++" := by
    rw [← o.fenceLabel_text, ho]
    decide
  rw [hrender, hlabel]
  rfl

end Markup
end AnswerStream
