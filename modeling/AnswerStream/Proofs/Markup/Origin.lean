import AnswerStream.Proofs.Markup.Answer

/-!
# Where the tags of an answer come from

Blocks, code and the cursor write tags of their own, with attributes that are fixed or
hold the label of a fence.  Links and images come from the markup of lines only.  So what
holds of all known tags other than links and images, and of the tags in the markup of
every line, holds of all tags of an answer (`madeOf_render_of_lines`).
-/

namespace AnswerStream
namespace Markup

open Text Scan

namespace Tag

/-- A tag that opens no link and no image. -/
def Unlinked : Tag → Prop
  | opening name _ => name ≠ "a" ∧ name ≠ "img"
  | closing _ => True

theorem OfLine.unlinked {t : Tag} (h : t.OfLine) : t.Unlinked := by
  rcases h with ⟨h⟩ | _
  · exact (by decide : ∀ n ∈ lineNames, n ≠ "a" ∧ n ≠ "img") _ h
  · trivial

/-- The tag of the cursor. -/
def cursor : Tag := .opening "span" [("class", "typing-cursor".toList)]

/-- A tag that is written as that of the cursor. -/
def IsCursor (t : Tag) : Prop := t.inside = cursor.inside

instance (t : Tag) : Decidable t.IsCursor := inferInstanceAs (Decidable (t.inside = cursor.inside))

/-- A property of tags that only links, images and the cursor can fail to have. -/
structure Admits (T : Tag → Prop) : Prop where
  known : ∀ t, T t → t.Known
  unlinked : ∀ t, t.Known → t.Unlinked → ¬ t.IsCursor → T t

variable {T : Tag → Prop}

theorem Admits.bare (h : Admits T) {name : String} (hn : name ∈ bareNames) :
    T (.opening name []) :=
  h.unlinked _ (.bare hn) ((by decide : ∀ n ∈ bareNames, n ≠ "a" ∧ n ≠ "img") name hn)
    ((by decide : ∀ n ∈ bareNames, ¬ (opening n []).IsCursor) name hn)

theorem Admits.closing (h : Admits T) {name : String} (hn : name ∈ closedNames) :
    T (.closing name) :=
  h.unlinked _ (.closing hn) trivial
    ((by decide : ∀ n ∈ closedNames, ¬ (Tag.closing n).IsCursor) name hn)

theorem Admits.fixed (h : Admits T) {name cls : String} (hn : (name, cls) ∈ classes)
    (hcursor : ¬ (opening name [("class", cls.toList)]).IsCursor) :
    T (.opening name [("class", cls.toList)]) :=
  h.unlinked _ (.fixed hn) ((by decide : ∀ p ∈ classes, p.1 ≠ "a" ∧ p.1 ≠ "img") _ hn) hcursor

/-- The tags of highlighted code are admitted. -/
theorem Admits.ofCode (h : Admits T) {t : Tag} (ht : OfCode t) : T t := by
  rcases ht with r | _
  · exact h.unlinked _ (.role r) ⟨by decide, by decide⟩ (by cases r <;> decide)
  · exact h.closing (by decide)

end Tag

section Lines

variable {T : Tag → Prop} (hT : Tag.Admits T)
include hT

/-- A block element around markup. -/
theorem MadeOf.tagged {name : String} (hn : name ∈ blockNames) {m : String}
    (h : MadeOf T m.toList) :
    MadeOf T ("<" ++ name ++ ">" ++ m ++ "</" ++ name ++ ">").toList := by
  have hbare : name ∈ Tag.bareNames := (by decide : ∀ n ∈ blockNames, n ∈ Tag.bareNames) name hn
  have hclosed : name ∈ Tag.closedNames :=
    (by decide : ∀ n ∈ blockNames, n ∈ Tag.closedNames) name hn
  rw [toList_tagged]
  exact ((MadeOf.tag (hT.bare hbare)).append h).append (.tag (hT.closing hclosed))

theorem madeOf_break : MadeOf T "<br>".toList :=
  .tag (t := .opening "br" []) (hT.bare (by decide))

namespace Block

theorem madeOf_joinedLine (k : Token State) {body : Option String}
    (h : ∀ m, body = some m → MadeOf T m.toList) : MadeOf T (joinedLine k body).toList := by
  cases body with
  | none =>
    rw [joinedLine]
    split
    · exact .nil
    · exact madeOf_break hT
  | some m =>
    have hm := h m rfl
    rw [joinedLine]
    split
    · exact hm
    · rw [String.toList_append]
      exact (madeOf_break hT).append hm

variable (hline : ∀ text, MadeOf T (Inline.render text).toList)
include hline

theorem madeOf_paragraphLine (k : Token State) : MadeOf T (paragraphLine k).toList := by
  refine madeOf_joinedLine hT k fun m hm => ?_
  split at hm
  · cases hm
  · rw [← Option.some.inj hm]
    exact hline k.text

theorem madeOf_quoteLine (k : Token State) : MadeOf T (quoteLine k).toList := by
  unfold quoteLine
  split
  · exact .nil
  · refine madeOf_joinedLine hT k fun m hm => ?_
    split at hm
    · cases hm
    · rw [← Option.some.inj hm]
      exact hline _

theorem madeOf_headingLine (k : Token State) : MadeOf T (headingLine k).toList := by
  unfold headingLine
  split
  · rename_i level text hheading
    exact MadeOf.tagged hT (heading?_level hheading)
      (hline (String.ofList (Line.headingText text)))
  · exact hline k.text

theorem madeOf_itemLine (item? : List Char → Option (List Char)) (k : Token State) :
    MadeOf T (itemLine item? k).toList := by
  unfold itemLine
  split
  · exact .nil
  · have hitem : MadeOf T (inline ((item? k.text.toList).getD k.text.toList)).toList := hline _
    have hwrapped := MadeOf.tagged hT (by decide : "li" ∈ blockNames) hitem
    simpa using hwrapped

theorem madeOf_rowCells {cell : String} (hc : cell ∈ blockNames) (line : List Char) :
    MadeOf T (rowCells cell line).toList := by
  unfold rowCells
  induction Line.cells line with
  | nil => exact .nil
  | cons text cells ih =>
    rw [List.map_cons, String.join_cons, String.toList_append]
    exact (MadeOf.tagged hT hc (hline _)).append ih

theorem madeOf_tableLine (k : Token State) : MadeOf T (tableLine k).toList := by
  unfold tableLine
  dsimp only
  split
  · exact .nil
  · split
    · have hcells := madeOf_rowCells hT hline (by decide : "th" ∈ blockNames) (trim k.text.toList)
      have hrow := MadeOf.tagged hT (by decide : "tr" ∈ blockNames) hcells
      have hhead := MadeOf.tagged hT (by decide : "thead" ∈ blockNames) hrow
      simpa using hhead
    · have hcells := madeOf_rowCells hT hline (by decide : "td" ∈ blockNames) (trim k.text.toList)
      have hrow := MadeOf.tagged hT (by decide : "tr" ∈ blockNames) hcells
      simpa using hrow

omit hline in
/-- A fence has the tags of its code and of the block around it. -/
theorem madeOf_fence {code : String → String → String}
    (hcode : ∀ label body, MadeOf T (code label body).toList) (text : String) :
    MadeOf T ((Fence.ofToken text).markup code).toList := by
  have hlabel := labelChar_shownLabel text
  have hshown : MadeOf T (Fence.ofToken text).shownLabel.toList := by
    refine MadeOf.text fun c hc => ?_
    have hquotable := Tag.quotable_label hlabel c hc
    refine ⟨hquotable.2.1, hquotable.2.2, ?_⟩
    rintro rfl
    exact absurd (hlabel _ hc) (by simp [Tag.LabelChar])
  have hwrap : ∀ {name : String} {attributes : List (String × List Char)} {m : List Char},
      T (.opening name attributes) → name ∈ Tag.closedNames → MadeOf T m →
        MadeOf T ((Tag.opening name attributes).source ++ m ++ (Tag.closing name).source) :=
    fun ho hn hm => ((MadeOf.tag ho).append hm).append (.tag (hT.closing hn))
  have hcopy : MadeOf T "Copy".toList := MadeOf.text (by simp)
  have hfixed : ∀ {name cls : String}, (name, cls) ∈ Tag.classes ∧
      ¬ (Tag.opening name [("class", cls.toList)]).IsCursor →
        T (.opening name [("class", cls.toList)]) :=
    fun h => hT.fixed h.1 h.2
  have hbody : T (.opening "code" [("class", "language-".toList ++
      (Fence.ofToken text).shownLabel.toList)]) :=
    hT.unlinked _ (.code hlabel) ⟨by decide, by decide⟩
      (by simp [Tag.IsCursor, Tag.inside, Tag.cursor])
  rw [toList_markup]
  refine hwrap (hfixed (by decide)) (by decide) ((hwrap (hfixed (by decide)) (by decide)
    ((hwrap (hfixed (by decide)) (by decide) hshown).append
      (hwrap (hfixed (by decide)) (by decide) hcopy))).append
    (hwrap (hT.bare (by decide)) (by decide) (hwrap hbody (by decide) (hcode _ _))))

/-- What a state writes for a token has the tags of its lines and of blocks. -/
theorem madeOf_written {code : String → String → String}
    (hcode : ∀ label body, MadeOf T (code label body).toList) (k : Token State) :
    MadeOf T (Progress.written (table code) none k).toList := by
  obtain ⟨text, source, target, before, fresh⟩ := k
  cases source with
  | paragraph => exact madeOf_paragraphLine hT hline _
  | block s =>
    cases s with
    | fence => exact madeOf_fence hT hcode text
    | table => exact madeOf_tableLine hT hline _
    | heading => exact madeOf_headingLine hT hline _
    | rule =>
      show MadeOf T "<hr>".toList
      exact MadeOf.tag (t := .opening "hr" []) (hT.bare (by decide))
    | quote => exact madeOf_quoteLine hT hline _
    | ordered => exact madeOf_itemLine hT hline Line.ordered? _
    | unordered => exact madeOf_itemLine hT hline Line.unordered? _

/-- The markup of blocks has the tags of its lines and of blocks. -/
theorem madeOf_run {code : String → String → String}
    (hcode : ∀ label body, MadeOf T (code label body).toList) (text : String) :
    MadeOf T ((table code).run text).toList := by
  refine run_of_lines (R := fun _ m => MadeOf T m.toList) (C := fun _ => True) text .nil ?_
    (fun _ m name hname h => MadeOf.tagged hT hname h) fun k _ => madeOf_written hT hline hcode k
  intro _ _ a b ha hb
  rw [String.toList_append]
  exact ha.append hb

end Block

/-! ## Answers -/

/-- Breaks and white space at the end can be taken off. -/
theorem madeOf_dropBreaks {cs : List Char} (h : MadeOf T cs.reverse) :
    MadeOf T (dropBreaks cs).reverse := by
  refine dropBreaks_induction (fun m hm => ?_) (fun m c hblank hm => ?_) h
  · exact (hm.of_append (between_lt hT.known _ _)).1
  · obtain ⟨-, hgt, -, hsemicolon⟩ := isBlank_plain hblank
    exact (hm.of_append (between_last _ hgt hsemicolon)).1

theorem madeOf_code (o : Options) (label body : String) :
    MadeOf T (o.code label body).toList := by
  unfold Options.code
  split
  · exact (Highlight.marked_highlight label body).made.mono fun t => hT.ofCode
  · exact .escape body

omit hT in
theorem toList_typingCursor :
    typingCursor.toList = Tag.cursor.source ++ (Tag.closing "span").source := by decide

theorem madeOf_withCursor {m : String} (h : MadeOf T m.toList) (hcursor : T Tag.cursor) :
    MadeOf T (withCursor m).toList := by
  have htrimmed : MadeOf T (dropBreaks m.toList.reverse).reverse :=
    madeOf_dropBreaks hT (by rwa [List.reverse_reverse])
  unfold withCursor
  rw [String.toList_append, String.toList_ofList, toList_typingCursor]
  exact htrimmed.append ((MadeOf.tag hcursor).append (.tag (hT.closing (by decide))))

/-- **The tags of an answer are those of its lines**, apart from the cursor and from tags that
open no link and no image. -/
theorem madeOf_render_of_lines (hline : ∀ text, MadeOf T (Inline.render text).toList)
    (o : Options) (text : String) (hcursor : o.typingCursor = true → T Tag.cursor) :
    MadeOf T (render o text).toList := by
  have hrun := Block.madeOf_run hT hline (madeOf_code hT o) (prepare text)
  unfold render
  dsimp only
  split
  · exact madeOf_withCursor hT hrun (hcursor ‹_›)
  · exact hrun

end Lines

/-! ## The cursor -/

/-- A known tag that is not written as that of the cursor. -/
def Tag.Uncursored (t : Tag) : Prop := t.Known ∧ ¬ t.IsCursor

theorem Tag.admits_uncursored : Tag.Admits Tag.Uncursored where
  known _ h := h.1
  unlinked _ h _ hcursor := ⟨h, hcursor⟩

/-- The tags of a line are none of the cursor's. -/
theorem Inline.made_uncursored (text : String) :
    MadeOf Tag.Uncursored (Inline.render text).toList := by
  rw [render, String.toList_ofList, resolveLinks_eq_linked, linked]
  refine (cut_pieces (tidy_run text).made).madeOf ?_ (Tag.admits_uncursored.closing (by decide)) ?_
  · rintro t (⟨h⟩ | ⟨h⟩)
    · exact Tag.admits_uncursored.bare ((by decide : ∀ n ∈ Tag.lineNames, n ∈ Tag.bareNames) _ h)
    · exact Tag.admits_uncursored.closing
        ((by decide : ∀ n ∈ Tag.lineNames, n ∈ Tag.closedNames) _ h)
  · intro l _ _ label address
    exact ⟨fun _ => ⟨Link.known_picture address label, by
      simp [Tag.IsCursor, Tag.inside, Tag.cursor, Link.picture]⟩,
      fun _ => ⟨Link.known_anchor address, by
        simp [Tag.IsCursor, Tag.inside, Tag.cursor, Link.anchor]⟩⟩

/-- Markup without the tag of the cursor does not contain the cursor. -/
theorem MadeOf.not_infix_cursor {m : List Char} (h : MadeOf Tag.Uncursored m) :
    ¬ typingCursor.toList <:+: m := by
  rintro ⟨l, r, rfl⟩
  have hknown : ∀ t, Tag.Uncursored t → t.Known := fun _ ht => ht.1
  -- the tag of the cursor can be cut out, so it is made of parts
  have hcut : l ++ typingCursor.toList ++ r =
      l ++ ('<' :: (Tag.cursor.inside ++ ('>' :: ((Tag.closing "span").source ++ r)))) := by
    simp [toList_typingCursor, Tag.source]
  rw [hcut] at h
  have hafter := (h.of_append (between_lt hknown _ _)).2
  rw [List.append_cons, ← List.cons_append, ← List.cons_append] at hafter
  have htag : MadeOf Tag.Uncursored Tag.cursor.source :=
    (hafter.of_append (between_gt hknown ('<' :: Tag.cursor.inside) _)).1
  have hmem : Segment.tag Tag.cursor.inside ∈ segments Tag.cursor.source := by decide
  rcases htag.mem_segments hknown hmem with ⟨c, hc, _⟩ | ⟨t, ht, heq⟩
  · cases hc
  · exact ht.2 (Segment.tag.inj heq).symm

/-- **An answer that is not streaming shows no cursor**, whatever its text is. -/
theorem not_infix_cursor_render {o : Options} (h : o.typingCursor = false) (text : String) :
    ¬ typingCursor.toList <:+: (render o text).toList :=
  (madeOf_render_of_lines Tag.admits_uncursored Inline.made_uncursored o text
    (by simp [h])).not_infix_cursor

/-- Nor does escaped text. -/
theorem not_infix_cursor_escape (text : String) :
    ¬ typingCursor.toList <:+: (escape text).toList :=
  (MadeOf.escape text).not_infix_cursor

end Markup
end AnswerStream
