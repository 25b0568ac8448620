import AnswerStream.Markup.Render
import AnswerStream.Proofs.Highlight.Tidy
import AnswerStream.Proofs.Markup.Blocks

/-!
# The markup of an answer

An answer is rendered by scanning its blocks.  While it streams, the breaks at its end
are taken off and a cursor is put in their place, which touches no other tag.

Two things are proved of every answer.  Its markup is made of known parts, so no
character of a text becomes a tag or leaves an attribute.  And its tags are properly
nested exactly if the labels of live links nest in every line.  They do not always: an
anchor is written around any label that has as many closing tags as others, and such a
label can close the emphasis around it.
-/

namespace AnswerStream
namespace Markup

open Text

/-! ## The cursor -/

/-- White space stands in no bracket and no entity. -/
theorem isBlank_plain {c : Char} (h : isBlank c = true) :
    c ≠ '<' ∧ c ≠ '>' ∧ c ≠ '&' ∧ c ≠ ';' := by
  refine ⟨?_, ?_, ?_, ?_⟩ <;> rintro rfl <;> exact absurd h (by decide)

/-- A character that starts no break is dropped if it is white space. -/
theorem dropBreaks_cons {c : Char} {cs : List Char}
    (h : ∀ ds, c = '>' → cs = 'r' :: 'b' :: '<' :: ds → False) :
    dropBreaks (c :: cs) = if isBlank c then dropBreaks cs else c :: cs := by
  rw [dropBreaks.eq_def]
  split
  · rename_i heq
    obtain ⟨rfl, rfl⟩ := List.cons.inj heq
    exact (h _ rfl rfl).elim
  · rename_i heq
    obtain ⟨rfl, rfl⟩ := List.cons.inj heq
    rfl
  · rename_i heq
    cases heq

/-- No break reaches into a tag whose name does not end as that of a break does.  The markup is
given the last character first. -/
theorem dropBreaks_append_tag {c : Char} (hc : c ≠ 'r') (cs rest : List Char) :
    dropBreaks (cs ++ '>' :: c :: rest) = dropBreaks cs ++ '>' :: c :: rest := by
  induction cs using dropBreaks.induct with
  | case1 cs ih => exact ih
  | case2 d cs hbreak hblank ih =>
    rw [List.cons_append, dropBreaks_cons, if_pos hblank, dropBreaks_cons hbreak, if_pos hblank, ih]
    rintro ds rfl
    exact absurd hblank (by decide)
  | case3 d cs hbreak hblank =>
    rw [List.cons_append, dropBreaks_cons, if_neg hblank, dropBreaks_cons hbreak, if_neg hblank]
    · rfl
    · -- the mark of a break cannot go on into the tag
      rintro ds rfl heq
      rcases cs with _ | ⟨c₁, _ | ⟨c₂, _ | ⟨c₃, cs⟩⟩⟩
      · simp at heq
      · simp at heq
      · simp at heq
      · simp only [List.cons_append, List.cons.injEq] at heq
        obtain ⟨rfl, rfl, rfl, _⟩ := heq
        exact hbreak cs rfl rfl
  | case4 =>
    rw [List.nil_append, dropBreaks_cons (by simp [hc]), if_neg (by decide)]
    rfl

/-- Markup that ends in such a tag keeps all of it before the cursor. -/
theorem withCursor_of_tag {m : String} {c : Char} {front : List Char}
    (hm : m.toList = front ++ [c, '>']) (hc : c ≠ 'r') : withCursor m = m ++ typingCursor := by
  have hreverse : m.toList.reverse = '>' :: c :: front.reverse := by simp [hm]
  have hdrop : dropBreaks m.toList.reverse = m.toList.reverse := by
    rw [hreverse]
    exact dropBreaks_append_tag hc [] front.reverse
  rw [withCursor, hdrop, List.reverse_reverse, String.ofList_toList]

/-- What holds of markup holds of what is left of it, if it is kept when a break or white space
is taken off the end.  The markup is given the last character first. -/
theorem dropBreaks_induction {P : List Char → Prop}
    (lineBreak : ∀ m, P (m ++ "<br>".toList) → P m)
    (blank : ∀ m c, isBlank c = true → P (m ++ [c]) → P m) {cs : List Char} (h : P cs.reverse) :
    P (dropBreaks cs).reverse := by
  induction cs using dropBreaks.induct with
  | case1 cs ih =>
    have hsplit : ('>' :: 'r' :: 'b' :: '<' :: cs).reverse = cs.reverse ++ "<br>".toList := by
      simp
    rw [hsplit] at h
    exact ih (lineBreak _ h)
  | case2 c cs hbreak hblank ih =>
    rw [dropBreaks_cons hbreak, if_pos hblank]
    rw [List.reverse_cons] at h
    exact ih (blank _ c hblank h)
  | case3 c cs hbreak hblank =>
    rw [dropBreaks_cons hbreak, if_neg hblank]
    exact h
  | case4 => exact h

/-- What is dropped is at the end of the markup. -/
theorem dropBreaks_suffix (cs : List Char) : dropBreaks cs <:+ cs :=
  List.reverse_prefix.1 (dropBreaks_induction (P := (· <+: cs.reverse))
    (fun m h => (List.prefix_append m _).trans h) (fun m _ _ h => (List.prefix_append m _).trans h)
    (List.prefix_refl _))

/-- Breaks and white space at the end of markup can be taken off. -/
theorem nests_dropBreaks {c : Prop} {cs : List Char} (h : Nests c cs.reverse) :
    Nests c (dropBreaks cs).reverse := by
  refine dropBreaks_induction (fun m hm => ?_) (fun m d hblank hm => ?_) h
  · exact hm.of_append_tidy tidy_break (between_lt (fun _ h => h) _ _)
  · obtain ⟨hlt, hgt, hamp, hsemicolon⟩ := isBlank_plain hblank
    refine hm.of_append_tidy (Tidy.text fun c hc => ?_) (between_last _ hgt hsemicolon)
    rw [List.mem_singleton.1 hc]
    exact ⟨hlt, hgt, hamp⟩

theorem tidy_typingCursor : Tidy Tag.Known typingCursor.toList :=
  Tidy.nil.wrap (fun _ h => h) (.fixed (by decide : ("span", "typing-cursor") ∈ Tag.classes))
    (.closing (by decide)) (by decide)

/-- The cursor changes nothing of what the markup nests under. -/
theorem nests_withCursor {c : Prop} {m : String} (h : Nests c m.toList) :
    Nests c (withCursor m).toList := by
  have htrimmed : Nests c (dropBreaks m.toList.reverse).reverse :=
    nests_dropBreaks (by rwa [List.reverse_reverse])
  unfold withCursor
  rw [String.toList_append, String.toList_ofList]
  exact (htrimmed.append (.of_tidy tidy_typingCursor)).congr (Iff.of_eq (and_true c))

/-! ## The answer -/

/-- The code of a fence is tidy, highlighted or not. -/
theorem Options.tidy_code (o : Options) (label body : String) :
    Tidy Tag.Known (o.code label body).toList := by
  unfold Options.code
  split
  · exact Tidy.mono (fun _ => Tag.OfCode.known) (Highlight.marked_highlight label body)
  · exact Tidy.escape body

/-- The markup of an answer nests under the condition that the labels of its lines do. -/
theorem nests_render (o : Options) (text : String) :
    Nests (∀ k ∈ (Block.table o.code).tokens (prepare text), Block.Nested k)
      (render o text).toList := by
  have hrun := Block.nests_run o.tidy_code (prepare text)
  unfold render
  dsimp only
  split
  · exact nests_withCursor hrun
  · exact hrun

/-- **No character of a text becomes markup.**  The markup of an answer is made of
characters other than brackets and ampersands, of entities, and of the tags of the
renderer, whose attributes hold no quote and no bracket. -/
theorem madeOf_render (o : Options) (text : String) :
    MadeOf Tag.Known (render o text).toList :=
  (nests_render o text).made

/-- **The tags of an answer are properly nested exactly if the labels of its live links
nest** in every line of it. -/
theorem wellNested_render_iff (o : Options) (text : String) :
    WellNested (render o text).toList ↔
      ∀ k ∈ (Block.table o.code).tokens (prepare text), Block.Nested k :=
  (nests_render o text).wellNested_iff

/-- A label can close the emphasis it stands in and start the next one.  It is level, so
the anchor is written around it and overlaps with both. -/
theorem not_wellNested_render_overlap :
    ¬ WellNested (render .final "*a [b* *c](u)").toList := by
  decide +kernel

end Markup
end AnswerStream
