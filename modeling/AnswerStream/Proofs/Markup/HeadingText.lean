import AnswerStream.Proofs.Markup.KeptText
import AnswerStream.Proofs.Markup.PlainAnswer

/-!
# The text of a heading

A heading may be closed by number signs after its text, which are not shown.  All number signs
at the end of the line are taken for such, also those that belong to the last word, as in the
name of a language.  So a heading of one line shows its text without the number signs it ends
with, and the whole text exactly if it ends with none (`render_heading_iff`).

## Why the loss is always seen

What is dropped could come back in another form, or what is left could show as much.  But a line
shows as many number signs as it has (`count_render`).  They are no delimiters, so the scan
keeps them, they stand in no tag and in no entity, and a link that goes live has those of its
label and of its address.
-/

namespace AnswerStream
namespace Markup

open Text Scan
open Highlight (count_escaped count_stripTags)

/-! ## The number signs of a line -/

/-- A number sign stands in no tag of a line and in no entity. -/
theorem literal_numberSign : Literal Tag.OfLine '#' where
  plain := by decide
  not_entity := by decide
  not_tag := by
    rintro t (⟨h⟩ | ⟨h⟩)
    · exact (by decide : ∀ n ∈ Tag.lineNames, '#' ∉ (Tag.opening n []).inside) _ h
    · exact (by decide : ∀ n ∈ Tag.lineNames, '#' ∉ (Tag.closing n).inside) _ h

/-- The text of an image has the number signs of its label. -/
theorem Link.count_alternative {label : List Char} (h : MadeOf Tag.OfLine label) :
    (alternative label).count '#' = label.count '#' := by
  have hquote : ∀ cs : List Char,
      (cs.flatMap fun c => if c = '"' then "&quot;".toList else [c]).count '#' = cs.count '#' := by
    intro cs
    induction cs with
    | nil => rfl
    | cons c cs ih =>
      rw [List.flatMap_cons, List.count_append, ih, ← List.singleton_append (l := cs),
        List.count_append]
      split
      · rw [‹c = _›]
        rfl
      · rfl
  rw [alternative, hquote, count_stripTags (fun _ => Tag.OfLine.known) literal_numberSign h]

/-- A link that goes live has the number signs of its label and its address. -/
theorem Link.count_markup {l : Link} (h : MadeOf Tag.OfLine l.label) :
    l.markup.count '#' = l.source.count '#' := by
  have hsource : l.source.count '#' = l.label.count '#' + l.address.count '#' := by
    cases hi : l.image <;> simp [source, hi]
  have halternative := count_alternative h
  rw [hsource]
  unfold markup
  split
  · simp [halternative, Nat.add_comm]
  · simp [Nat.add_comm]

/-- Making links live leaves the number signs of a line as they are. -/
theorem Cut.count_markup {m : List Char} {ps : List Piece} (h : Cut m ps) :
    (ps.flatMap Piece.markup).count '#' = m.count '#' := by
  induction h with
  | nil => rfl
  | still _ source still _ ih =>
    rw [List.flatMap_append, (flatMap_markup_of_still still).1, source, List.count_append,
      List.count_append, ih]
  | live live _ label _ _ ih =>
    rw [List.flatMap_cons, Link.markup_live live, List.count_append, List.count_append,
      Link.count_markup label, ih]

/-- **A line shows all of its number signs.** -/
theorem count_render (text : String) :
    (Inline.render text).toList.count '#' = text.toList.count '#' := by
  obtain ⟨kept, hrun, hkeeps⟩ := Inline.exists_kept text
  have hmade : MadeOf Tag.OfLine (Inline.table.run text).toList := (Inline.tidy_run text).made
  rw [Inline.render, String.toList_ofList, resolveLinks_eq_linked, linked,
    (cut_pieces hmade).count_markup,
    ← count_stripTags (fun _ => Tag.OfLine.known) literal_numberSign hmade, hrun.stripTags_eq,
    count_escaped literal_numberSign, hkeeps.count_eq (by decide)]

/-! ## The line of a heading -/

namespace Line

/-- A heading as it is written. -/
def heading (level : Nat) (text : List Char) : List Char := List.replicate level '#' ++ ' ' :: text

/-- A text without the number signs it ends with. -/
def dropSigns (text : List Char) : List Char := dropEndWhile (· == '#') text

variable {level : Nat} {text : List Char}

theorem head?_heading (hlevel : 1 ≤ level) (text : List Char) :
    (heading level text).head? = some '#' := by
  have hne : List.replicate level '#' ≠ [] := by
    rw [ne_eq, List.replicate_eq_nil_iff]
    omega
  rw [heading, head?_append_left hne, List.head?_replicate, if_neg (by omega)]

/-- A heading is read as it is written. -/
theorem heading?_heading (hlevel : 1 ≤ level ∧ level ≤ 6)
    (hfirst : ∀ c ∈ text.head?, isBlank c = false) :
    heading? (heading level text) = some (level, text) := by
  have hmarks : ∀ c ∈ List.replicate level '#', (c == '#') = true := by
    intro c hc
    rw [List.eq_of_mem_replicate hc]
    rfl
  have hafter : ∀ c ∈ (' ' :: text).head?, (c == '#') = false := by
    rintro c ⟨⟩
    rfl
  have hunindent : unindent? (heading level text) = some (heading level text) := by
    have hself : (heading level text).dropWhile (· == ' ') = heading level text := by
      refine dropWhile_eq_self fun c hc => ?_
      rw [head?_heading hlevel.1] at hc
      cases hc
      rfl
    simp [unindent?, hself]
  have htext : afterMark? (' ' :: text) = some text := by
    rw [afterMark?, if_pos (by decide), trimStart, dropWhile_eq_self hfirst]
  have htake : (heading level text).takeWhile (· == '#') = List.replicate level '#' :=
    takeWhile_append_eq hmarks hafter
  have hdrop : (heading level text).dropWhile (· == '#') = ' ' :: text :=
    dropWhile_append_eq hmarks hafter
  simp [heading?, hunindent, htake, hdrop, htext, hlevel]

/-- Nothing is taken off a text that does not end with a number sign. -/
theorem dropSigns_eq_iff : dropSigns text = text ↔ text.getLast? ≠ some '#' := by
  constructor
  · intro hkept hsign
    have hlast := getLast?_dropEndWhile (· == '#') text '#'
    rw [show dropEndWhile (· == '#') text = text from hkept] at hlast
    cases hlast hsign
  · intro hlast
    refine dropEndWhile_eq_self fun c hc => beq_eq_false_iff_ne.2 ?_
    rintro rfl
    exact hlast hc

/-- What is taken off is missed when number signs are counted. -/
theorem dropSigns_eq_of_count (h : (dropSigns text).count '#' = text.count '#') :
    dropSigns text = text := by
  obtain ⟨tail, htail, hsigns⟩ := dropEndWhile_append (· == '#') text
  have hcount : text.count '#' = (dropSigns text).count '#' + tail.count '#' := by
    rw [dropSigns, ← List.count_append, ← htail]
  have hall : tail.count '#' = tail.length :=
    List.count_eq_length.2 fun c hc => (beq_iff_eq.1 (hsigns c hc)).symm
  have hnil : tail = [] := List.length_eq_zero_iff.1 (by omega)
  rw [hnil, List.append_nil] at htail
  exact htail.symm

/-- If what is left ends in a word, nothing but number signs is taken off. -/
theorem headingText_eq (hword : ∃ c ∈ (dropSigns text).getLast?, isBlank c = false) :
    headingText text = dropSigns text := by
  obtain ⟨a, ha, hblank⟩ := hword
  obtain ⟨tail, htail, hsigns⟩ := dropEndWhile_append (· == '#') text
  have hlast : ∀ c ∈ text.getLast?, isBlank c = false := by
    intro c hc
    rw [htail, List.getLast?_append] at hc
    cases hend : tail.getLast? with
    | none =>
      rw [hend, Option.none_or] at hc
      rw [dropSigns, hc] at ha
      cases ha
      exact hblank
    | some d =>
      rw [hend, Option.some_or] at hc
      obtain rfl := Option.some.inj hc
      rw [beq_iff_eq.1 (hsigns _ (List.mem_of_getLast? hend))]
      rfl
  have hkept : ∀ c ∈ (dropSigns text).getLast?, isBlank c = false := by
    intro c hc
    rw [Option.mem_def.1 ha] at hc
    cases hc
    exact hblank
  rw [headingText, trimEnd, trimEnd, dropEndWhile_eq_self hlast]
  exact dropEndWhile_eq_self hkept

end Line

namespace Block

/-- Markup in the element of a heading. -/
def headed (level : Nat) (m : String) : String :=
  let tag := "h" ++ toString level
  "<" ++ tag ++ ">" ++ m ++ "</" ++ tag ++ ">"

variable {level : Nat} {text : List Char}

theorem kindOf_heading (hlevel : 1 ≤ level ∧ level ≤ 6)
    (hfirst : ∀ c ∈ text.head?, isBlank c = false) :
    kindOf (Line.heading level text) = .heading := by
  have hhead := Line.head?_heading hlevel.1 text
  have hfence : Line.opensFence (Line.heading level text) = false := by
    have hself : trimStart (Line.heading level text) = Line.heading level text := by
      refine dropWhile_eq_self fun c hc => ?_
      rw [hhead] at hc
      cases hc
      rfl
    rw [Line.opensFence, hself]
    cases hline : Line.heading level text with
    | nil => rfl
    | cons c cs =>
      rw [hline] at hhead
      cases hhead
      rfl
  simp [kindOf, hfence, Line.heading?_heading hlevel hfirst]

/-- A heading that is all there is. -/
theorem finish_scan_heading (code : String → String → String) {l : List Char}
    (hl : kindOf l = .heading) : (Page.scan code {} [l]).finish code = heading l := by
  have hne : l ≠ [] := by
    rintro rfl
    exact absurd hl (by decide)
  have hnext : nextState l none .paragraph = some (Kind.state .heading) := by
    rw [nextState, otherShape_of_not_table (by simp [Shape.fits]), hl]
    rfl
  have hmove : ({} : Page).move code (Kind.state .heading) = Kind.heading.page "" "" :=
    move_page code (k := .paragraph) rfl (by decide) "" ""
  have hsettle : ({} : Page).settle code l none hopLimit = Kind.heading.page "" "" := by
    rw [hopLimit, settle_succ code 15 hnext (by decide), hmove]
    exact settle_of_none code 15 rfl
  have hline : ({} : Page).line code l none =
      { Kind.heading.page "" "" with token := String.ofList l } := by
    rw [Page.line, if_neg (by decide), hsettle]
    simp [Page.keep, Kind.page]
  rw [scan_last code hne, hline, finish_page code hl (by decide) hne]
  simp [Kind.wrap, Kind.content, Kind.shown, Kind.line]

theorem heading_eq (hlevel : 1 ≤ level ∧ level ≤ 6)
    (hfirst : ∀ c ∈ text.head?, isBlank c = false)
    (hword : ∃ c ∈ (Line.dropSigns text).getLast?, isBlank c = false) :
    heading (Line.heading level text) =
      headed level (Inline.render (String.ofList (Line.dropSigns text))) := by
  rw [heading, Line.heading?_heading hlevel hfirst]
  dsimp only
  rw [Line.headingText_eq hword]
  rfl

theorem headed_injective {m m' : String} (h : headed level m = headed level m') : m = m' := by
  apply String.toList_injective
  have hlist := congrArg String.toList h
  simpa [headed] using hlist

end Block

/-! ## The answer -/

/-- A heading is an answer of one line. -/
theorem splitOn_prepare_heading (level : Nat) {text : List Char}
    (hline : '\n' ∉ text ∧ '\r' ∉ text) :
    splitOn '\n' (prepare (String.ofList (Line.heading level text))).toList =
      [Line.heading level text] := by
  have hmem : ∀ c : Char, c ≠ '#' → c ≠ ' ' → c ∉ text → c ∉ Line.heading level text := by
    intro c hsign hspace htext h
    rcases List.mem_append.1 h with h | h
    · exact hsign (List.eq_of_mem_replicate h)
    · rcases List.mem_cons.1 h with h | h
      · exact hspace h
      · exact htext h
  have hnewline := hmem '\n' (by decide) (by decide) hline.1
  have hreturn := hmem '\r' (by decide) (by decide) hline.2
  have hkept : dropEndWhile (· == '\n') (Line.heading level text) = Line.heading level text := by
    refine dropEndWhile_eq_self fun c hc => beq_eq_false_iff_ne.2 ?_
    rintro rfl
    exact hnewline (List.mem_of_getLast? hc)
  rw [toList_prepare (by rwa [String.toList_ofList]), String.toList_ofList, hkept]
  exact splitOn_line hnewline

/-- **A heading shows its text without the number signs it ends with**, although they belong to
its last word, and its whole text exactly if it ends with none. -/
theorem render_heading_iff {level : Nat} {text : String} (hlevel : 1 ≤ level ∧ level ≤ 6)
    (hline : '\n' ∉ text.toList ∧ '\r' ∉ text.toList)
    (hfirst : ∀ c ∈ text.toList.head?, isBlank c = false)
    (hword : ∃ c ∈ (Line.dropSigns text.toList).getLast?, isBlank c = false) :
    render .final (String.ofList (Line.heading level text.toList)) =
        Block.headed level (Inline.render (String.ofList (Line.dropSigns text.toList))) ∧
      (render .final (String.ofList (Line.heading level text.toList)) =
          Block.headed level (Inline.render text) ↔ text.toList.getLast? ≠ some '#') := by
  have hrender : render .final (String.ofList (Line.heading level text.toList)) =
      Block.headed level (Inline.render (String.ofList (Line.dropSigns text.toList))) := by
    rw [render, if_neg (by decide), Block.run_eq_finish, splitOn_prepare_heading level hline,
      Block.finish_scan_heading _ (Block.kindOf_heading hlevel hfirst),
      Block.heading_eq hlevel hfirst hword]
  rw [← Line.dropSigns_eq_iff, hrender]
  refine ⟨rfl, fun hwhole => ?_, fun hkept => by rw [hkept, String.ofList_toList]⟩
  -- a number sign that is dropped is missed in the markup
  have hsame := congrArg (fun m => m.toList.count '#') (Block.headed_injective hwhole)
  simp only [count_render, String.toList_ofList] at hsame
  exact Line.dropSigns_eq_of_count hsame

/-- A heading with bars, emphasis and a number sign inside. -/
theorem render_heading_kept :
    (1 ≤ 2 ∧ 2 ≤ 6) ∧ ('\n' ∉ "F# | *C*".toList ∧ '\r' ∉ "F# | *C*".toList) ∧
      (∀ c ∈ "F# | *C*".toList.head?, isBlank c = false) ∧
      (∃ c ∈ (Line.dropSigns "F# | *C*".toList).getLast?, isBlank c = false) ∧
      render .final "## F# | *C*" = "<h2>F# | <em>C</em></h2>" := by
  have hline : '\n' ∉ "F# | *C*".toList ∧ '\r' ∉ "F# | *C*".toList := by decide
  have hfirst : ∀ c ∈ "F# | *C*".toList.head?, isBlank c = false := by
    rintro c ⟨⟩
    decide
  have hword : ∃ c ∈ (Line.dropSigns "F# | *C*".toList).getLast?, isBlank c = false :=
    ⟨'*', by decide, by decide⟩
  have hlevel : 1 ≤ 2 ∧ 2 ≤ 6 := by decide
  have hwhole := (render_heading_iff hlevel hline hfirst hword).2.2 (by decide)
  exact ⟨hlevel, hline, hfirst, hword, hwhole.trans (by decide +kernel)⟩

/-- The number sign in the name of a language is lost. -/
theorem not_heading_whole :
    ('\n' ∉ "Intro to C#".toList ∧ '\r' ∉ "Intro to C#".toList) ∧
      (∀ c ∈ "Intro to C#".toList.head?, isBlank c = false) ∧
      (∃ c ∈ (Line.dropSigns "Intro to C#".toList).getLast?, isBlank c = false) ∧
      String.ofList (Line.heading 1 "Intro to C#".toList) = "# Intro to C#" ∧
      Block.headed 1 (Inline.render "Intro to C#") = "<h1>Intro to C#</h1>" ∧
      render .final "# Intro to C#" ≠ Block.headed 1 (Inline.render "Intro to C#") := by
  have hfirst : ∀ c ∈ "Intro to C#".toList.head?, isBlank c = false := by
    rintro c ⟨⟩
    decide
  refine ⟨by decide, hfirst, ⟨'C', by decide, by decide⟩, ?_⟩
  decide +kernel

end Markup
end AnswerStream
