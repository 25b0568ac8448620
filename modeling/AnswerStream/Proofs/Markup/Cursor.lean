import AnswerStream.Proofs.Markup.Decoration

/-!
# Where the cursor stands

While an answer streams in, the cursor stands in the place of the white space and the breaks
its markup ends with.  They are taken off in turns, the last character first: white space one
character at a time, a break as a whole, until neither is left.

So what is taken off is made of white space and breaks (`exists_dropped`), and it is as much as
there is: what stays ends in neither (`getLast_dropEndBreaks`, `not_suffix_dropEndBreaks`).
What stays is the beginning of the answer without the cursor, whose markup has no tag of that
kind, so it does not spell the cursor either (`render_cursor`).
-/

namespace AnswerStream
namespace Markup

open Text

/-- White space and breaks, in any order. -/
inductive Breaks : List Char → Prop
  | nil : Breaks []
  | blank {cs : List Char} {c : Char} (h : Breaks cs) (hc : isBlank c = true) : Breaks (cs ++ [c])
  | lineBreak {cs : List Char} (h : Breaks cs) : Breaks (cs ++ "<br>".toList)

/-! ## What is taken off

The markup is given the last character first, as it is read. -/

theorem exists_breaks (cs : List Char) : ∃ tail, cs.reverse = (dropBreaks cs).reverse ++ tail ∧
    Breaks tail := by
  induction cs using dropBreaks.induct with
  | case1 cs ih =>
    obtain ⟨tail, htail, hbreaks⟩ := ih
    have hsplit : ('>' :: 'r' :: 'b' :: '<' :: cs).reverse = cs.reverse ++ "<br>".toList := by
      simp
    refine ⟨tail ++ "<br>".toList, ?_, hbreaks.lineBreak⟩
    rw [hsplit, htail, List.append_assoc]
    rfl
  | case2 c cs hbreak hblank ih =>
    obtain ⟨tail, htail, hbreaks⟩ := ih
    refine ⟨tail ++ [c], ?_, hbreaks.blank hblank⟩
    rw [dropBreaks_cons hbreak, if_pos hblank, List.reverse_cons, htail, List.append_assoc]
  | case3 c cs hbreak hblank =>
    rw [dropBreaks_cons hbreak, if_neg hblank]
    exact ⟨[], (List.append_nil _).symm, .nil⟩
  | case4 => exact ⟨[], rfl, .nil⟩

/-- White space is taken off as long as there is any, also after a break. -/
theorem head_dropBreaks (cs : List Char) : ∀ c ∈ (dropBreaks cs).head?, isBlank c = false := by
  induction cs using dropBreaks.induct with
  | case1 cs ih => exact ih
  | case2 c cs hbreak hblank ih =>
    rw [dropBreaks_cons hbreak, if_pos hblank]
    exact ih
  | case3 c cs hbreak hblank =>
    rw [dropBreaks_cons hbreak, if_neg hblank]
    rintro _ ⟨⟩
    exact Bool.eq_false_iff.2 hblank
  | case4 => rintro _ ⟨⟩

/-- So are breaks, also after white space. -/
theorem not_prefix_dropBreaks (cs : List Char) : ¬ ['>', 'r', 'b', '<'] <+: dropBreaks cs := by
  induction cs using dropBreaks.induct with
  | case1 cs ih => exact ih
  | case2 c cs hbreak hblank ih =>
    rwa [dropBreaks_cons hbreak, if_pos hblank]
  | case3 c cs hbreak hblank =>
    rw [dropBreaks_cons hbreak, if_neg hblank]
    rintro ⟨ds, hds⟩
    obtain ⟨hc, hcs⟩ := List.cons.inj hds
    exact hbreak ds hc.symm hcs.symm
  | case4 => exact fun h => List.cons_ne_nil _ _ (List.prefix_nil.1 h)

/-! ## What stays -/

/-- What is taken off the end of markup is made of white space and breaks. -/
theorem exists_dropped (m : List Char) : ∃ tail, m = dropEndBreaks m ++ tail ∧ Breaks tail := by
  have h := exists_breaks m.reverse
  rwa [List.reverse_reverse] at h

theorem getLast_dropEndBreaks (m : List Char) :
    ∀ c ∈ (dropEndBreaks m).getLast?, isBlank c = false := by
  rw [dropEndBreaks, List.getLast?_reverse]
  exact head_dropBreaks m.reverse

theorem not_suffix_dropEndBreaks (m : List Char) : ¬ "<br>".toList <:+ dropEndBreaks m := by
  have hbreak : "<br>".toList.reverse = ['>', 'r', 'b', '<'] := by decide
  rw [dropEndBreaks, ← List.reverse_prefix, List.reverse_reverse, hbreak]
  exact not_prefix_dropBreaks m.reverse

/-- The cursor changes nothing of how code is marked up, so it is put into the same answer. -/
theorem render_typing (highlight : Bool) (text : String) :
    render ⟨true, highlight⟩ text = withCursor (render ⟨false, highlight⟩ text) := by
  have hcode : Options.code ⟨true, highlight⟩ = Options.code ⟨false, highlight⟩ := rfl
  rw [render_of_typing rfl, render_of_not_typing rfl, hcode]

/-- **The cursor stands where the answer ends, and nowhere else.**  An answer with the cursor is
the answer without it, less the white space and the breaks at its end, followed by the cursor;
and no other cursor is shown, whatever the text is. -/
theorem render_cursor (highlight : Bool) (text : String) :
    ∃ shown dropped : String,
      render ⟨true, highlight⟩ text = shown ++ typingCursor ∧
      render ⟨false, highlight⟩ text = shown ++ dropped ∧
      Breaks dropped.toList ∧
      (∀ c ∈ shown.toList.getLast?, isBlank c = false) ∧
      ¬ "<br>".toList <:+ shown.toList ∧
      ¬ typingCursor.toList <:+: shown.toList ∧
      ¬ typingCursor.toList <:+: (render ⟨false, highlight⟩ text).toList := by
  have hwhole : ¬ typingCursor.toList <:+: (render ⟨false, highlight⟩ text).toList :=
    not_infix_cursor_render rfl text
  rw [render_typing]
  generalize render ⟨false, highlight⟩ text = m at hwhole ⊢
  obtain ⟨tail, htail, hbreaks⟩ := exists_dropped m.toList
  -- what stays is the beginning of the answer without the cursor
  have hprefix : dropEndBreaks m.toList <+: m.toList := ⟨tail, htail.symm⟩
  have hshown : ¬ typingCursor.toList <:+: dropEndBreaks m.toList :=
    fun hcursor => hwhole (hcursor.trans hprefix.isInfix)
  refine ⟨String.ofList (dropEndBreaks m.toList), String.ofList tail, rfl, ?_, ?_⟩
  · apply String.toList_injective
    rw [String.toList_append, String.toList_ofList, String.toList_ofList]
    exact htail
  · rw [String.toList_ofList, String.toList_ofList]
    exact ⟨hbreaks, getLast_dropEndBreaks _, not_suffix_dropEndBreaks _, hshown, hwhole⟩

end Markup
end AnswerStream
