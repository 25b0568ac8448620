import Mathlib.Data.List.Basic
import AnswerStream.Markup.Inline
import AnswerStream.Proofs.Markup.Pieces
import AnswerStream.Proofs.Markup.TidyRun

/-!
# Links and the nesting of tags

A link goes live if its label has as many closing tags as others.  That is less than
being properly nested: a label such as `b</em> <em>c` is level, and the anchor around it
then overlaps with the emphasis it cuts through.  Likewise the tags of an image's label
go away with it, and what remains on either side may no longer fit together.

## When a line stays nested

`LabelsNest m` says that neither happens in the markup of a line: the labels of all live
links are properly nested, and the markup without its live images is.  This is the exact
condition (`nests_linked`).  The hard half is that nothing around a line can mend a label
that does not nest.  An anchor is closed by its own closing tag, so the label has to
leave it open on top, and a label opens and closes no anchors itself.  What remains
without the images has as many closing tags as others, so if a reader gets through it,
nothing is left open that was not open before.
-/

namespace AnswerStream
namespace Markup

open Text

/-! ## What remains of a line -/

/-- The links and images of markup that go live. -/
def liveLinks (m : List Char) : List Link := (pieces m).filterMap Piece.live?

/-- A piece as it is written, and nothing for an image that goes live. -/
def Piece.withoutImage (p : Piece) : List Char :=
  match p.live? with
  | some l => if l.image then [] else p.source
  | none => p.source

/-- Markup without its live images. -/
def withoutImages (m : List Char) : List Char := (pieces m).flatMap Piece.withoutImage

/-- Live links and images leave the tags of markup properly nested. -/
structure LabelsNest (m : List Char) : Prop where
  /-- The label of every live link is properly nested. -/
  label : ∀ l ∈ liveLinks m, l.image = false → WellNested l.label
  /-- What remains without the live images is properly nested. -/
  remainder : WellNested (withoutImages m)

theorem Piece.withoutImage_of_live?_eq_none {p : Piece} (h : p.live? = none) :
    p.withoutImage = p.source := by
  rw [withoutImage, h]

theorem Link.live?_eq_some {l : Link} (h : l.isLive = true) : (Piece.link l).live? = some l := by
  rw [Piece.live?, if_pos h]

theorem Link.withoutImage_anchor {l : Link} (h : l.isLive = true) (hi : l.image = false) :
    (Piece.link l).withoutImage = l.source := by
  rw [Piece.withoutImage, live?_eq_some h]
  simp [hi, Piece.source]

theorem Link.withoutImage_image {l : Link} (h : l.isLive = true) (hi : l.image = true) :
    (Piece.link l).withoutImage = [] := by
  rw [Piece.withoutImage, live?_eq_some h]
  simp [hi]

theorem Link.markup_live {l : Link} (h : l.isLive = true) : (Piece.link l).markup = l.markup := by
  rw [Piece.markup, if_pos h]

/-- Without a live link nothing changes. -/
theorem flatMap_markup_of_still {qs : List Piece} (h : ∀ q ∈ qs, q.live? = none) :
    qs.flatMap Piece.markup = qs.flatMap Piece.source ∧
      qs.flatMap Piece.withoutImage = qs.flatMap Piece.source ∧ qs.filterMap Piece.live? = [] :=
  ⟨List.flatMap_congr fun q hq => Piece.markup_of_live?_eq_none (h q hq),
    List.flatMap_congr fun q hq => Piece.withoutImage_of_live?_eq_none (h q hq),
    List.filterMap_eq_nil_iff.2 h⟩

/-- Where no label meets an address there are no links to make live. -/
theorem resolveLinks_eq_linked (m : List Char) : resolveLinks m = linked m := by
  unfold resolveLinks
  split
  · rfl
  · rename_i hnot
    have hstill : ∀ p ∈ pieces m, p.live? = none := by
      intro p hp
      cases hl : p.live? with
      | none => rfl
      | some l =>
        obtain ⟨rfl, _⟩ := Piece.live?_eq_some hl
        refine absurd ?_ hnot
        obtain ⟨as, bs, hsplit⟩ := List.append_of_mem hp
        have hm := source_pieces m
        rw [hsplit, List.flatMap_append, List.flatMap_cons, Piece.source] at hm
        rw [← hm]
        have hmark := occursIn_append
          (as.flatMap Piece.source ++ (if l.image then ['!'] else []) ++ '[' :: l.label) [']', '(']
          (l.address ++ [')'] ++ bs.flatMap Piece.source)
        simpa [Link.source] using hmark
    rw [linked, (flatMap_markup_of_still hstill).1, source_pieces]

/-! ## Live links as parts -/

/-- The tag of a link. -/
def Link.anchor (l : Link) : Tag :=
  .opening "a" [("href", l.address), ("target", "_blank".toList),
    ("rel", "noopener noreferrer".toList)]

/-- The tag of an image. -/
def Link.picture (l : Link) : Tag :=
  .opening "img" [("src", l.address), ("alt", alternative l.label)]

theorem Link.markup_anchor {l : Link} (h : l.image = false) :
    l.markup = l.anchor.source ++ l.label ++ (Tag.closing "a").source := by
  simp [markup, h, anchor, Tag.source, Tag.inside, Tag.attributeText]

theorem Link.markup_image {l : Link} (h : l.image = true) : l.markup = l.picture.source := by
  simp [markup, h, picture, Tag.source, Tag.inside, Tag.attributeText]

/-- An address cannot leave its attribute. -/
theorem Link.quotable_address {l : Link} (h : ∀ c ∈ l.address, inAddress c = true) :
    Tag.Quotable l.address := by
  intro c hc
  have hin := h c hc
  refine ⟨?_, ?_, ?_⟩ <;> rintro rfl <;> exact absurd hin (by decide)

/-- The segments of markup are characters other than brackets and its tags. -/
theorem MadeOf.mem_segments {T : Tag → Prop} (hT : ∀ t, T t → t.Known) {m : List Char}
    (h : MadeOf T m) {s : Segment} (hs : s ∈ segments m) :
    (∃ c, s = .char c ∧ c ≠ '<' ∧ c ≠ '>') ∨ ∃ t, T t ∧ s = .tag t.inside := by
  obtain ⟨as, ha, rfl⟩ := h
  rw [segments_assemble fun a h => (ha a h).mono hT] at hs
  obtain ⟨a, hmem, hs⟩ := List.mem_flatMap.1 hs
  have hfits := ha a hmem
  cases a with
  | char c => exact Or.inl ⟨c, List.mem_singleton.1 hs, hfits.1, hfits.2.1⟩
  | entity name =>
    obtain ⟨c, hc, rfl⟩ := List.mem_map.1 hs
    exact Or.inl ⟨c, rfl, (by simp [Atom.entities, or_imp, forall_and] : ∀ n ∈ Atom.entities,
      ∀ c ∈ '&' :: (n.toList ++ [';']), c ≠ '<' ∧ c ≠ '>') name hfits c hc⟩
  | tag t => exact Or.inr ⟨t, hfits, List.mem_singleton.1 hs⟩

/-- The text of an image cannot leave its attribute. -/
theorem Link.quotable_alternative {label : List Char} (h : MadeOf Tag.OfLine label) :
    Tag.Quotable (alternative label) := by
  intro c hc
  obtain ⟨d, hd, hc⟩ := List.mem_flatMap.1 hc
  obtain ⟨s, hs, hds⟩ := List.mem_flatMap.1 hd
  rcases h.mem_segments (fun t => Tag.OfLine.known) hs with ⟨e, rfl, hbracket⟩ | ⟨t, _, rfl⟩
  · rw [List.mem_singleton.1 hds] at hc
    split at hc
    · exact (by simp : ∀ c ∈ "&quot;".toList, c ≠ '"' ∧ c ≠ '<' ∧ c ≠ '>') c hc
    · rw [List.mem_singleton.1 hc]
      exact ⟨‹_›, hbracket⟩
  · cases hds

theorem Link.known_anchor {l : Link} (h : ∀ c ∈ l.address, inAddress c = true) :
    l.anchor.Known :=
  .anchor (quotable_address h)

theorem Link.known_picture {l : Link} (ha : ∀ c ∈ l.address, inAddress c = true)
    (hl : MadeOf Tag.OfLine l.label) : l.picture.Known :=
  .image (quotable_address ha) (quotable_alternative hl)

/-- Markup with live links has the tags of lines, of links and of images. -/
theorem Cut.madeOf {T : Tag → Prop} {m : List Char} {ps : List Piece} (h : Cut m ps)
    (hline : ∀ t, t.OfLine → T t) (hclosing : T (.closing "a"))
    (hlink : ∀ l : Link, l.isLive = true → MadeOf Tag.OfLine l.source →
      MadeOf Tag.OfLine l.label → (∀ c ∈ l.address, Link.inAddress c = true) →
        (l.image = true → T l.picture) ∧ (l.image = false → T l.anchor)) :
    MadeOf T (ps.flatMap Piece.markup) := by
  induction h with
  | nil => exact MadeOf.nil
  | still made source still _ ih =>
    rw [List.flatMap_append, (flatMap_markup_of_still still).1, source]
    exact (made.mono hline).append ih
  | @live l m ps live made label address _ ih =>
    obtain ⟨hpicture, hanchor⟩ := hlink l live made label address
    rw [List.flatMap_cons, Link.markup_live live]
    refine MadeOf.append ?_ ih
    cases hi : l.image with
    | true =>
      rw [Link.markup_image hi]
      exact .tag (hpicture hi)
    | false =>
      rw [Link.markup_anchor hi]
      exact ((MadeOf.tag (hanchor hi)).append (label.mono hline)).append (.tag hclosing)

/-- Markup with live links is made of known parts. -/
theorem Cut.made_linked {m : List Char} {ps : List Piece} (h : Cut m ps) :
    MadeOf Tag.Known (ps.flatMap Piece.markup) :=
  h.madeOf (fun _ => Tag.OfLine.known) (.closing (by decide)) fun _ _ _ label address =>
    ⟨fun _ => Link.known_picture address label, fun _ => Link.known_anchor address⟩

/-- What remains without images is made of the parts of a line. -/
theorem Cut.made_remainder {m : List Char} {ps : List Piece} (h : Cut m ps) :
    MadeOf Tag.OfLine (ps.flatMap Piece.withoutImage) := by
  induction h with
  | nil => exact MadeOf.nil
  | still made source still _ ih =>
    rw [List.flatMap_append, (flatMap_markup_of_still still).2.1, source]
    exact made.append ih
  | @live l m ps live made _ _ _ ih =>
    rw [List.flatMap_cons]
    cases hi : l.image with
    | true =>
      rw [Link.withoutImage_image live hi]
      exact ih
    | false =>
      rw [Link.withoutImage_anchor live hi]
      exact made.append ih

/-! ## Reading through live links -/

/-- As it is written, a link is read as text around its label. -/
theorem Link.exists_segments_source {l : Link} (hl : MadeOf Tag.OfLine l.label)
    (ha : ∀ c ∈ l.address, inAddress c = true) : ∃ as bs : List Char, ∀ rest,
      segments (l.source ++ rest) =
        as.map .char ++ (segments l.label ++ (bs.map .char ++ segments rest)) := by
  refine ⟨(if l.image then ['!'] else []) ++ ['['], [']', '('] ++ l.address ++ [')'], ?_⟩
  intro rest
  have hbefore : ∀ c ∈ (if l.image then ['!'] else []) ++ ['['], c ≠ '<' := by
    cases l.image <;> simp
  have hafter : ∀ c ∈ [']', '('] ++ l.address ++ [')'], c ≠ '<' := by
    intro c hc
    simp only [List.mem_append, List.mem_cons, List.not_mem_nil, or_false] at hc
    rcases hc with ((rfl | rfl) | hc) | rfl
    · decide
    · decide
    · exact (quotable_address ha c hc).2.1
    · decide
  have hsource : l.source ++ rest = ((if l.image then ['!'] else []) ++ ['[']) ++
      (l.label ++ (([']', '('] ++ l.address ++ [')']) ++ rest)) := by
    simp [source]
  rw [hsource, segments_text_append hbefore,
    (hl.mono fun t => Tag.OfLine.known).segments_append, segments_text_append hafter]

theorem Link.walk_source {l : Link} (hl : MadeOf Tag.OfLine l.label)
    (ha : ∀ c ∈ l.address, inAddress c = true) (opened : List (List Char)) (rest : List Char) :
    walk opened (segments (l.source ++ rest)) =
      (walk opened (segments l.label)).bind fun o => walk o (segments rest) := by
  obtain ⟨as, bs, hsegs⟩ := exists_segments_source hl ha
  rw [hsegs, walk_append, walk_text, Option.bind_some, walk_append]
  congr 1
  funext o
  rw [walk_append, walk_text, Option.bind_some]

/-- An anchor is read by reading its label inside it. -/
theorem Link.walk_anchor {l : Link} (hi : l.image = false) (hl : MadeOf Tag.OfLine l.label)
    (ha : ∀ c ∈ l.address, inAddress c = true) (opened : List (List Char)) (rest : List Char) :
    walk opened (segments (l.markup ++ rest)) =
      (walk ("a".toList :: opened) (segments l.label)).bind
        fun o => walk o (segments ((Tag.closing "a").source ++ rest)) := by
  have hname : ∀ c ∈ "a".toList, c ≠ ' ' ∧ c ≠ '/' := by simp
  rw [markup_anchor hi, List.append_assoc, List.append_assoc, anchor,
    walk_opening (known_anchor ha) hname, if_neg (by decide),
    (hl.mono fun t => Tag.OfLine.known).walk_append]

/-- An image opens nothing. -/
theorem Link.walk_picture {l : Link} (hi : l.image = true) (hl : MadeOf Tag.OfLine l.label)
    (ha : ∀ c ∈ l.address, inAddress c = true) (opened : List (List Char)) (rest : List Char) :
    walk opened (segments (l.markup ++ rest)) = walk opened (segments rest) := by
  have hname : ∀ c ∈ "img".toList, c ≠ ' ' ∧ c ≠ '/' := by simp
  rw [markup_image hi, picture, walk_opening (known_picture ha hl) hname, if_pos (by decide)]

theorem Link.walk_closing_anchor (opened : List (List Char)) (rest : List Char) :
    walk ("a".toList :: opened) (segments ((Tag.closing "a").source ++ rest)) =
      walk opened (segments rest) :=
  walk_closing (.closing (by decide)) opened rest

/-- If the labels nest, a reader does with the live links what it does without the
images. -/
theorem Cut.walk_linked {m : List Char} {ps : List Piece} (h : Cut m ps)
    (hlabel : ∀ l ∈ ps.filterMap Piece.live?, l.image = false → WellNested l.label)
    (opened : List (List Char)) :
    walk opened (segments (ps.flatMap Piece.markup)) =
      walk opened (segments (ps.flatMap Piece.withoutImage)) := by
  induction h generalizing opened with
  | nil => rfl
  | @still n m qs ps made source still _ ih =>
    have ih := ih (by simpa [(flatMap_markup_of_still still).2.2] using hlabel)
    have hmarkup : qs.flatMap Piece.markup = n :=
      (List.flatMap_congr fun q hq => Piece.markup_of_live?_eq_none (still q hq)).trans source
    have hwithout : qs.flatMap Piece.withoutImage = n :=
      (List.flatMap_congr fun q hq => Piece.withoutImage_of_live?_eq_none (still q hq)).trans source
    rw [List.flatMap_append, List.flatMap_append, hmarkup, hwithout]
    exact (made.mono fun t => Tag.OfLine.known).walk_append_congr ih opened
  | @live l m ps live _ label address _ ih =>
    rw [List.filterMap_cons_some (Link.live?_eq_some live)] at hlabel
    have ih := ih fun k hk => hlabel k (List.mem_cons_of_mem _ hk)
    rw [List.flatMap_cons, List.flatMap_cons, Link.markup_live live]
    cases hi : l.image with
    | true =>
      rw [Link.withoutImage_image live hi, Link.walk_picture hi label address]
      exact ih opened
    | false =>
      have hneutral := wellNested_iff_neutral.1 (hlabel l (List.mem_cons_self ..) hi)
      rw [Link.withoutImage_anchor live hi, Link.walk_anchor hi label address, hneutral,
        Link.walk_source label address, hneutral, Option.bind_some, Option.bind_some,
        Link.walk_closing_anchor]
      exact ih opened

/-! ## Labels that do not nest -/

/-- The tags of a line close and open only the elements of a line. -/
theorem MadeOf.mem_lineNames {m : List Char} (h : MadeOf Tag.OfLine m) {s : Segment}
    (hs : s ∈ segments m) {n : List Char} (hn : s.Closes n ∨ s.Opens n) :
    n ∈ Tag.lineNames.map String.toList := by
  rcases h.mem_segments (fun t => Tag.OfLine.known) hs with ⟨c, rfl, _⟩ | ⟨t, ht, rfl⟩
  · rcases hn with hn | ⟨_, hn, _⟩ <;> cases hn
  · rcases ht with ⟨hname⟩ | ⟨hname⟩
    · obtain ⟨hhead, hopens⟩ := (by decide : ∀ n ∈ Tag.lineNames,
        (Tag.opening n []).inside.head? ≠ some '/' ∧
          Segment.name (Tag.opening n []).inside = n.toList) _ hname
      rcases hn with hn | ⟨_, heq, _, hn⟩
      · rw [Segment.tag.inj hn] at hhead
        exact absurd rfl hhead
      · rw [← hn, ← Segment.tag.inj heq, hopens]
        exact List.mem_map_of_mem hname
    · rcases hn with hn | ⟨_, _, hopening, _⟩
      · rw [← (List.cons.inj (Segment.tag.inj hn)).2]
        exact List.mem_map_of_mem hname
      · simp [Tag.inside, Segment.isOpening] at hopening

/-- What the markup of a line does with the elements of a line, it does below any other
element. -/
theorem MadeOf.walk_append_opened {m : List Char} (h : MadeOf Tag.OfLine m)
    (opened rest : List (List Char))
    (hrest : ∀ n ∈ rest.head?, n ∉ Tag.lineNames.map String.toList) :
    walk (opened ++ rest) (segments m) = (walk opened (segments m)).map (· ++ rest) :=
  walk_append_of_not_closes opened fun n hn _ hs hc => hrest n hn (h.mem_lineNames hs (Or.inl hc))

/-- **A label that an anchor can be closed after is properly nested.** -/
theorem wellNested_of_walk_anchor {m : List Char} (h : MadeOf Tag.OfLine m)
    {opened o : List (List Char)} {rest : List Char}
    (hread : ((walk ("a".toList :: opened) (segments m)).bind
      fun o => walk o (segments ((Tag.closing "a").source ++ rest))) = some o) :
    WellNested m := by
  obtain ⟨p, hp, hclose⟩ := Option.bind_eq_some_iff.1 hread
  have hbelow := h.walk_append_opened [] ("a".toList :: opened) (by simp; decide)
  rw [List.nil_append, hp] at hbelow
  obtain ⟨q, hq, rfl⟩ := Option.map_eq_some_iff.1 hbelow.symm
  cases q with
  | nil => exact hq
  | cons top q =>
    -- what the label leaves open would have to be closed as an anchor
    have htop := eq_of_walk_closing (.closing (by decide)) hclose
    rcases mem_of_walk hq top (List.mem_cons_self ..) with hmem | ⟨s, hs, hopens⟩
    · cases hmem
    · have hline := h.mem_lineNames hs (Or.inr hopens)
      rw [htop] at hline
      exact absurd hline (by decide)

/-- Where a reader gets through live links, their labels nest. -/
theorem Cut.wellNested_label {m : List Char} {ps : List Piece} (h : Cut m ps)
    {opened o : List (List Char)}
    (hread : walk opened (segments (ps.flatMap Piece.markup)) = some o) :
    ∀ l ∈ ps.filterMap Piece.live?, l.image = false → WellNested l.label := by
  induction h generalizing opened with
  | nil => simp
  | still made source still _ ih =>
    rw [List.flatMap_append, (flatMap_markup_of_still still).1, source,
      (made.mono fun t => Tag.OfLine.known).walk_append] at hread
    obtain ⟨p, _, hread⟩ := Option.bind_eq_some_iff.1 hread
    simpa [(flatMap_markup_of_still still).2.2] using ih hread
  | @live l m ps live _ label address _ ih =>
    rw [List.flatMap_cons, Link.markup_live live] at hread
    rw [List.filterMap_cons_some (Link.live?_eq_some live)]
    cases hi : l.image with
    | true =>
      rw [Link.walk_picture hi label address] at hread
      intro k hk hki
      rcases List.mem_cons.1 hk with rfl | hk
      · rw [hi] at hki
        cases hki
      · exact ih hread k hk hki
    | false =>
      rw [Link.walk_anchor hi label address] at hread
      have hnest := wellNested_of_walk_anchor label hread
      rw [wellNested_iff_neutral.1 hnest, Option.bind_some, Link.walk_closing_anchor] at hread
      intro k hk hki
      rcases List.mem_cons.1 hk with rfl | hk
      · exact hnest
      · exact ih hread k hk hki

/-! ## What remains without the images -/

/-- Live images take as many closing tags away as others. -/
theorem Cut.countP_remainder {m : List Char} {ps : List Piece} (h : Cut m ps) :
    (segments m).countP Segment.isOpening +
        (segments (ps.flatMap Piece.withoutImage)).countP Segment.isClosing =
      (segments m).countP Segment.isClosing +
        (segments (ps.flatMap Piece.withoutImage)).countP Segment.isOpening := by
  induction h with
  | nil => rfl
  | still made source still _ ih =>
    have made := made.mono fun t => Tag.OfLine.known
    rw [List.flatMap_append, (flatMap_markup_of_still still).2.1, source, made.segments_append,
      made.segments_append]
    simp only [List.countP_append]
    omega
  | @live l m ps live _ label address _ ih =>
    obtain ⟨as, bs, hsegs⟩ := Link.exists_segments_source label address
    -- a label that goes live is level, and what stands around it has no tags
    have hlevel : (segments l.label).countP Segment.isOpening =
        (segments l.label).countP Segment.isClosing := by
      rw [Link.isLive, Bool.and_eq_true] at live
      exact eq_of_beq live.2
    have htext : ∀ cs : List Char, (cs.map Segment.char).countP Segment.isOpening = 0 ∧
        (cs.map Segment.char).countP Segment.isClosing = 0 := by
      intro cs
      constructor <;> rw [List.countP_eq_zero] <;> intro s hs <;>
        obtain ⟨c, _, rfl⟩ := List.mem_map.1 hs <;> simp [Segment.isOpening, Segment.isClosing]
    rw [List.flatMap_cons]
    cases hi : l.image with
    | true =>
      rw [Link.withoutImage_image live hi, hsegs, List.nil_append]
      simp only [List.countP_append, htext]
      omega
    | false =>
      rw [Link.withoutImage_anchor live hi, hsegs, hsegs]
      simp only [List.countP_append, htext]
      omega

theorem MadeOf.not_void {m : List Char} (h : MadeOf Tag.OfLine m) :
    ∀ s ∈ segments m, ∀ n, s.Opens n → n ∉ voidNames := by
  intro s hs n hn
  exact (by decide : ∀ n ∈ Tag.lineNames.map String.toList, n ∉ voidNames) n
    (h.mem_lineNames hs (Or.inr hn))

/-- What a reader gets through is properly nested if it has as many closing tags as
others, whatever block elements stand around it. -/
theorem MadeOf.wellNested_of_walk {m : List Char} (h : MadeOf Tag.OfLine m)
    (hlevel : (segments m).countP Segment.isOpening = (segments m).countP Segment.isClosing)
    {opened o : List (List Char)} (ho : ∀ n ∈ opened, n ∈ blockNames.map String.toList)
    (hread : walk opened (segments m) = some o) : WellNested m := by
  have hline : ∀ n ∈ blockNames.map String.toList, n ∉ Tag.lineNames.map String.toList := by
    decide
  have hbelow := h.walk_append_opened [] opened
    fun n hn => hline n (ho n (List.mem_of_mem_head? hn))
  rw [List.nil_append, hread] at hbelow
  obtain ⟨q, hq, _⟩ := Option.map_eq_some_iff.1 hbelow.symm
  have hlength := length_of_walk hq h.not_void
  rw [List.length_nil] at hlength
  have hnil : q = [] := List.length_eq_zero_iff.1 (by omega)
  rw [WellNested, hq, hnil]

/-- **The markup of a line stays properly nested exactly if its labels nest.** -/
theorem nests_linked {m : List Char} (h : Tidy Tag.OfLine m) : Nests (LabelsNest m) (linked m) := by
  have hcut := cut_pieces h.made
  refine ⟨hcut.made_linked, fun hc opened => ?_, fun hc opened ho => ?_⟩
  · rw [linked, hcut.walk_linked hc.label]
    exact wellNested_iff_neutral.1 hc.remainder opened
  · cases hread : walk opened (segments (linked m)) with
    | none => rfl
    | some o =>
      -- a reader that gets through shows that the labels nest after all
      have hlabel := hcut.wellNested_label hread
      rw [linked, hcut.walk_linked hlabel] at hread
      have hwhole := length_of_walk (h.neutral []) h.made.not_void
      have hcount := hcut.countP_remainder
      refine absurd ⟨hlabel, ?_⟩ hc
      refine hcut.made_remainder.wellNested_of_walk ?_ ho hread
      rw [List.length_nil] at hwhole
      omega

/-! ## The markup inside a line -/

namespace Inline

/-- No transition inside a line has a way of its own to write anything. -/
theorem modest (s : State) : ∀ tr ∈ (rules s).transitions, Modest Tag.OfLine tr := by
  intro tr htr
  have hnone : ∀ tr ∈ (rules s).transitions,
      tr.chars.isNone ∧ tr.tokens.isNone ∧ tr.place ≠ .carry := by
    cases s <;> decide
  obtain ⟨hc, ht, hp⟩ := hnone tr htr
  exact .of_none (Option.isNone_iff_eq_none.1 hc) (Option.isNone_iff_eq_none.1 ht) hp

theorem writesTidily : WritesTidily Tag.OfLine table where
  chars_eq := rfl
  chars_none s := by cases s <;> rfl
  modest := modest
  region := by
    have hwrap : ∀ n : String, n ∈ Tag.lineNames → ∀ {m : List Char}, Tidy Tag.OfLine m →
        Tidy Tag.OfLine ((Tag.opening n []).source ++ m ++ (Tag.closing n).source) :=
      fun _ hn _ h => h.wrap (fun t => Tag.OfLine.known) (.opening hn) (.closing hn)
        ((by decide : ∀ n ∈ Tag.lineNames, n ∈ Tag.closedNames) _ hn)
    intro s m h
    cases s with
    | text => exact h.bare
    | code => exact hwrap "code" (by decide) h
    | strike => exact hwrap "del" (by decide) h
    | strong => exact hwrap "strong" (by decide) h
    | em => exact hwrap "em" (by decide) h
    | strongInEm => exact hwrap "strong" (by decide) h
    | emInStrong => exact hwrap "em" (by decide) h
  token s f hf := by cases s <;> cases hf

/-- The markup of a line before its links are made live is tidy. -/
theorem tidy_run (text : String) : Tidy Tag.OfLine (table.run text).toList :=
  writesTidily.run (fun _ => Tag.OfLine.known) text

/-- The labels of a text nest where it is marked up as a line. -/
def Nested (text : String) : Prop := LabelsNest (table.run text).toList

/-- **The markup of a line is properly nested exactly if its labels nest.** -/
theorem nests_render (text : String) : Nests (Nested text) (render text).toList := by
  rw [render, String.toList_ofList, resolveLinks_eq_linked]
  exact nests_linked (tidy_run text)

end Inline

end Markup
end AnswerStream
