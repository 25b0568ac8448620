import AnswerStream.Proofs.Markup.CodeSpan
import AnswerStream.Proofs.Markup.Links

/-!
# Links and code inside a line

Links are looked for in markup, where a code span is a piece of its own and hides what looks
like a link inside it.  This works if the search gets to the span: a link that starts before
a span and ends inside it takes the search into the span, whether the link goes live or not,
and what looks like a link there goes live.

## When a span stays as it is

`Kept` says that the characters at some place come out of the search as they are.  It holds
exactly if no live link meets them (`kept_iff`).  For a code span there are two ways in which
this can fail: the span stands in the label of a live link, or a link reaches from before the
span into it (`kept_or`).  The second one is why the code of a line is not always literal.
-/

namespace AnswerStream
namespace Markup

open Text
open Inline (codeSpan Coded OfStyle)

/-! ## Places in markup -/

/-- Pieces as they are written. -/
def sourceOf (ps : List Piece) : List Char := ps.flatMap Piece.source

/-- Pieces with their links made live. -/
def markupOf (ps : List Piece) : List Char := ps.flatMap Piece.markup

@[simp] theorem sourceOf_nil : sourceOf [] = [] := rfl

@[simp] theorem sourceOf_cons (p : Piece) (ps : List Piece) :
    sourceOf (p :: ps) = p.source ++ sourceOf ps := rfl

@[simp] theorem sourceOf_append (ps qs : List Piece) :
    sourceOf (ps ++ qs) = sourceOf ps ++ sourceOf qs :=
  List.flatMap_append

@[simp] theorem markupOf_nil : markupOf [] = [] := rfl

@[simp] theorem markupOf_cons (p : Piece) (ps : List Piece) :
    markupOf (p :: ps) = p.markup ++ markupOf ps := rfl

@[simp] theorem markupOf_append (ps qs : List Piece) :
    markupOf (ps ++ qs) = markupOf ps ++ markupOf qs :=
  List.flatMap_append

theorem sourceOf_pieces (m : List Char) : sourceOf (pieces m) = m := source_pieces m

theorem linked_eq (m : List Char) : linked m = markupOf (pieces m) := rfl

/-- A link of the markup `m` meets the characters `w` that stand after `a`: it starts before
they end, and ends after they start. -/
def Meets (m a w : List Char) (l : Link) : Prop :=
  ∃ ps rs, pieces m = ps ++ .link l :: rs ∧ (sourceOf ps).length < (a ++ w).length ∧
    a.length < (sourceOf ps ++ l.source).length

/-- A link of the markup `m` reaches into the characters `w` that stand after `a`: it starts
before them, and ends inside them. -/
def ReachesInto (m a w : List Char) (l : Link) : Prop :=
  ∃ ps rs, pieces m = ps ++ .link l :: rs ∧ (sourceOf ps).length < a.length ∧
    a.length < (sourceOf ps ++ l.source).length ∧
    (sourceOf ps ++ l.source).length < (a ++ w).length

/-- The label of a link of the markup `m` holds the characters `w` that stand after `a`. -/
def LabelHolds (m a w : List Char) (l : Link) : Prop :=
  ∃ ps rs u v, pieces m = ps ++ .link l :: rs ∧ l.label = u ++ w ++ v ∧
    a = sourceOf ps ++ ((if l.image then ['!'] else []) ++ '[' :: u)

/-- The characters `w` between `a` and `b` come out of the search for links as they are:
what comes out is what the pieces before and after become, with these characters and what is
left of the pieces around them in between. -/
def Kept (m a w b out : List Char) : Prop :=
  ∃ ps mid rs x y, pieces m = ps ++ mid ++ rs ∧ a = sourceOf ps ++ x ∧ b = y ++ sourceOf rs ∧
    out = markupOf ps ++ (x ++ w ++ y) ++ markupOf rs

/-! ## Reading pieces -/

/-- The first piece of markup, and the pieces of what follows it. -/
theorem pieces_eq_cons {m : List Char} {p : Piece} {ps : List Piece} (h : pieces m = p :: ps) :
    ∃ rest, m = p.source ++ rest ∧ pieces rest = ps ∧
      (Piece.read? m = some p ∨ ∃ c, p = .char c) := by
  cases m with
  | nil => cases h
  | cons c cs =>
    cases hp : Piece.read? (c :: cs) with
    | none =>
      rw [pieces_cons_of_none hp] at h
      obtain ⟨rfl, rfl⟩ := List.cons.inj h
      exact ⟨cs, rfl, rfl, Or.inr ⟨c, rfl⟩⟩
    | some q =>
      obtain ⟨rest, hrest⟩ := Piece.read?_eq_some hp
      have hread := pieces_source_append (hrest ▸ hp)
      rw [hrest, hread] at h
      obtain ⟨rfl, rfl⟩ := List.cons.inj h
      exact ⟨rest, hrest, rfl, Or.inl rfl⟩

/-- The pieces from some point on are those of the markup from there on. -/
theorem pieces_eq_append {m : List Char} {ps qs : List Piece} (h : pieces m = ps ++ qs) :
    ∃ rest, m = sourceOf ps ++ rest ∧ pieces rest = qs := by
  induction ps generalizing m with
  | nil => exact ⟨m, rfl, h⟩
  | cons p ps ih =>
    obtain ⟨m', rfl, hm', -⟩ := pieces_eq_cons h
    obtain ⟨rest, rfl, hrest⟩ := ih hm'
    exact ⟨rest, by simp, hrest⟩

/-! ## The pieces at a place -/

/-- Pieces fall apart at any place of what they make up, except for the one in which the
place lies. -/
theorem exists_split {qs : List Piece} {a t : List Char} (h : sourceOf qs = a ++ t) :
    ∃ ps rs x, qs = ps ++ rs ∧ a = sourceOf ps ++ x ∧
      ∀ q rs', rs = q :: rs' → x.length < q.source.length := by
  induction qs generalizing a with
  | nil =>
    obtain ⟨rfl, -⟩ := List.append_eq_nil_iff.1 h.symm
    exact ⟨[], [], [], rfl, rfl, by simp⟩
  | cons q qs ih =>
    rw [sourceOf_cons] at h
    by_cases hlt : a.length < q.source.length
    · refine ⟨[], q :: qs, a, rfl, rfl, fun q' rs' hq => ?_⟩
      obtain ⟨rfl, -⟩ := List.cons.inj hq
      exact hlt
    · have hprefix : q.source <+: a :=
        List.prefix_of_prefix_length_le (List.prefix_append ..) ⟨t, h.symm⟩ (by omega)
      obtain ⟨a', rfl⟩ := hprefix
      rw [List.append_assoc] at h
      obtain ⟨ps, rs, x, rfl, rfl, hx⟩ := ih (List.append_cancel_left h)
      exact ⟨q :: ps, rs, x, rfl, by simp, hx⟩

/-- As many pieces as it takes to have the characters `t`, and what they have beyond. -/
theorem exists_take {qs : List Piece} {t b : List Char} (h : sourceOf qs = t ++ b) :
    ∃ mid rs y, qs = mid ++ rs ∧ sourceOf mid = t ++ y ∧ b = y ++ sourceOf rs ∧
      ∀ ms p ms', mid = ms ++ p :: ms' → (sourceOf ms).length < t.length := by
  induction qs generalizing t with
  | nil =>
    obtain ⟨rfl, rfl⟩ := List.append_eq_nil_iff.1 h.symm
    exact ⟨[], [], [], rfl, rfl, rfl, by simp⟩
  | cons q qs ih =>
    by_cases ht : t = []
    · subst ht
      exact ⟨[], q :: qs, [], rfl, rfl, h.symm, by simp⟩
    have hpos := List.length_pos_iff.2 ht
    rw [sourceOf_cons] at h
    rcases List.append_eq_append_iff.1 h with ⟨t', rfl, hqs⟩ | ⟨u, hq, rfl⟩
    · obtain ⟨mid, rs, y, rfl, hmid, hb, hlt⟩ := ih hqs
      refine ⟨q :: mid, rs, y, rfl, by simp [hmid], hb, fun ms p ms' hms => ?_⟩
      cases ms with
      | nil => exact hpos
      | cons m ms =>
        obtain ⟨rfl, hms'⟩ := List.cons.inj hms
        have hrest := hlt ms p ms' hms'
        rw [sourceOf_cons, List.length_append, List.length_append]
        omega
    · refine ⟨[q], qs, u, rfl, by simp [hq], rfl, fun ms p ms' hms => ?_⟩
      cases ms with
      | nil => exact hpos
      | cons m ms => simp at hms

theorem length_sourceOf_le {ps qs : List Piece} (h : ps <+: qs) :
    (sourceOf ps).length ≤ (sourceOf qs).length := by
  obtain ⟨rs, rfl⟩ := h
  rw [sourceOf_append, List.length_append]
  exact Nat.le_add_right ..

/-- A piece that starts before the pieces `mid` end, and ends after they start, is one of
them. -/
theorem mem_of_length {ps mid rs qs ts : List Piece} {p : Piece}
    (h : ps ++ mid ++ rs = qs ++ p :: ts)
    (hbefore : (sourceOf qs).length < (sourceOf (ps ++ mid)).length)
    (hafter : (sourceOf ps).length < (sourceOf (qs ++ [p])).length) : p ∈ mid := by
  have hps : ps <+: qs ++ p :: ts := ⟨mid ++ rs, by rw [← h, List.append_assoc]⟩
  have hmid : ps ++ mid <+: qs ++ p :: ts := ⟨rs, h⟩
  have hqs : qs <+: qs ++ p :: ts := List.prefix_append ..
  have hp : qs ++ [p] <+: qs ++ p :: ts := ⟨ts, by simp⟩
  have hend : qs ++ [p] <+: ps ++ mid := by
    refine List.prefix_of_prefix_length_le hp hmid ?_
    rw [List.length_append, List.length_singleton]
    by_contra hlong
    have hle := length_sourceOf_le (List.prefix_of_prefix_length_le hmid hqs (by omega))
    omega
  have hstart : ps <+: qs := by
    refine List.prefix_of_prefix_length_le hps hqs ?_
    by_contra hlong
    have hle := length_sourceOf_le
      (List.prefix_of_prefix_length_le hp hps (by simp; omega))
    omega
  obtain ⟨qs', rfl⟩ := hstart
  rw [List.append_assoc, List.prefix_append_right_inj] at hend
  exact hend.subset (by simp)

/-- There are pieces that cover the characters `w` between `a` and `b`, and of which each
one has some of these characters. -/
theorem exists_cover {qs : List Piece} {a w b : List Char} (h : sourceOf qs = a ++ w ++ b) :
    ∃ ps mid rs x y, qs = ps ++ mid ++ rs ∧ a = sourceOf ps ++ x ∧ b = y ++ sourceOf rs ∧
      sourceOf mid = x ++ w ++ y ∧ ∀ ms p ms', mid = ms ++ p :: ms' →
        (sourceOf ms).length < (x ++ w).length ∧ x.length < (sourceOf (ms ++ [p])).length := by
  rw [List.append_assoc] at h
  obtain ⟨ps, qs, x, rfl, rfl, hx⟩ := exists_split h
  have hqs : sourceOf qs = (x ++ w) ++ b := by simpa using h
  obtain ⟨mid, rs, y, rfl, hmid, hb, hlt⟩ := exists_take hqs
  refine ⟨ps, mid, rs, x, y, by simp, rfl, hb, hmid, fun ms p ms' hms => ⟨hlt ms p ms' hms, ?_⟩⟩
  cases mid with
  | nil => simp at hms
  | cons q mid =>
    have hfirst : [q] <+: ms ++ [p] :=
      List.prefix_of_prefix_length_le ⟨mid, rfl⟩ ⟨ms', by simpa using hms.symm⟩ (by simp)
    have hle := length_sourceOf_le hfirst
    have hq := hx q (mid ++ rs) rfl
    rw [sourceOf_cons, sourceOf_nil, List.append_nil] at hle
    omega

/-! ## What stays as it is -/

theorem Piece.live?_link_eq_none {l : Link} : (link l).live? = none ↔ l.isLive = false := by
  cases hlive : l.isLive <;> simp [live?, hlive]

/-- A live link never comes out as it is written. -/
theorem markupOf_eq_sourceOf {ps : List Piece} :
    markupOf ps = sourceOf ps ↔ ∀ p ∈ ps, p.live? = none := by
  refine ⟨fun h => ?_, fun h => (flatMap_markup_of_still h).1⟩
  induction ps with
  | nil => simp
  | cons p ps ih =>
    rw [markupOf_cons, sourceOf_cons] at h
    cases hp : p.live? with
    | none =>
      rw [Piece.markup_of_live?_eq_none hp] at h
      exact List.forall_mem_cons.2 ⟨hp, ih (List.append_cancel_left h)⟩
    | some l =>
      -- a live link begins with a tag
      obtain ⟨rfl, hlive⟩ := Piece.live?_eq_some hp
      rw [Link.markup_live hlive] at h
      cases hi : l.image <;> simp [Link.markup, Piece.source, Link.source, hi] at h

/-- A link that meets characters that stay as they are is not live. -/
theorem Kept.isLive_eq_false {m a w b : List Char} (h : Kept m a w b (linked m))
    (hm : m = a ++ w ++ b) {l : Link} (hl : Meets m a w l) : l.isLive = false := by
  obtain ⟨ps, mid, rs, x, y, hpieces, rfl, rfl, hout⟩ := h
  obtain ⟨qs, ts, hlink, hbefore, hafter⟩ := hl
  have hmid : sourceOf mid = x ++ w ++ y := by
    have hsource : sourceOf ps ++ sourceOf mid ++ sourceOf rs =
        sourceOf ps ++ (x ++ w ++ y) ++ sourceOf rs := by
      rw [← sourceOf_append, ← sourceOf_append, ← hpieces, sourceOf_pieces, hm]
      simp
    exact List.append_cancel_left (List.append_cancel_right hsource)
  have hstill : markupOf mid = sourceOf mid := by
    rw [linked_eq, hpieces, markupOf_append, markupOf_append] at hout
    rw [hmid]
    exact List.append_cancel_left (List.append_cancel_right hout)
  have hmem : Piece.link l ∈ mid := by
    have hlength := congrArg List.length hmid
    refine mem_of_length (hpieces.symm.trans hlink) ?_ ?_
    · simp at hbefore hlength ⊢
      omega
    · simp [Piece.source] at hafter ⊢
      omega
  exact Piece.live?_link_eq_none.1 (markupOf_eq_sourceOf.1 hstill _ hmem)

/-- Characters that no live link meets stay as they are. -/
theorem kept_of_isLive_eq_false {m a w b : List Char} (hm : m = a ++ w ++ b)
    (h : ∀ l, Meets m a w l → l.isLive = false) : Kept m a w b (linked m) := by
  have hsource : sourceOf (pieces m) = a ++ w ++ b := (sourceOf_pieces m).trans hm
  obtain ⟨ps, mid, rs, x, y, hpieces, rfl, rfl, hmid, hcover⟩ := exists_cover hsource
  have hstill : ∀ p ∈ mid, p.live? = none := by
    intro p hp
    obtain ⟨ms, ms', rfl⟩ := List.append_of_mem hp
    obtain ⟨hbefore, hafter⟩ := hcover ms p ms' rfl
    cases p with
    | link l =>
      refine Piece.live?_link_eq_none.2 (h l ⟨ps ++ ms, ms' ++ rs, ?_, ?_, ?_⟩)
      · rw [hpieces]
        simp
      · simp at hbefore ⊢
        omega
      · simp [Piece.source] at hafter ⊢
        omega
    | _ => rfl
  refine ⟨ps, mid, rs, x, y, hpieces, rfl, rfl, ?_⟩
  rw [linked_eq, hpieces, markupOf_append, markupOf_append, markupOf_eq_sourceOf.2 hstill, hmid]

/-- **Characters stay as they are exactly if no live link meets them.** -/
theorem kept_iff {m a w b : List Char} (hm : m = a ++ w ++ b) :
    Kept m a w b (linked m) ↔ ∀ l, Meets m a w l → l.isLive = false :=
  ⟨fun h _ hl => h.isLive_eq_false hm hl, kept_of_isLive_eq_false hm⟩

/-! ## Code in the markup of a line -/

/-- A code span is read as a whole: its first closing tag is its own. -/
theorem readCode?_codeSpan (s b : List Char) :
    Piece.readCode? (codeSpan s ++ b) = some (.code (escaped s)) := by
  have hclose : splitAtText codeClose (escaped s ++ (codeClose ++ b)) =
      (escaped s, codeClose ++ b) := by
    refine splitWhere_append_of_not ?_ (by simp [codeClose]) fun x y hxy hy => ?_
    · exact List.isPrefixOf_iff_prefix.2 (List.prefix_append ..)
    · cases y with
      | nil => exact absurd rfl hy
      | cons c y =>
        refine Bool.eq_false_iff.2 fun hprefix => ?_
        have hhead := (List.cons_prefix_cons.1 (List.isPrefixOf_iff_prefix.1 hprefix)).1
        refine lt_not_mem_escaped s ?_
        rw [hxy, hhead]
        simp
  have hopen : codeOpen.isPrefixOf (codeSpan s ++ b) = true := by
    simp [codeSpan, List.isPrefixOf_iff_prefix]
  have hdrop : (codeSpan s ++ b).drop codeOpen.length = escaped s ++ (codeClose ++ b) := by
    simp [codeSpan, codeOpen]
  rw [Piece.readCode?, if_pos hopen, hdrop, hclose]
  simp [codeClose]

/-- Markup of style does not begin as code does. -/
theorem codeOpen_not_of_style {n : List Char} (h : MadeOf OfStyle n) (hn : n ≠ []) (z : List Char) :
    ¬ codeOpen <+: n ++ z := by
  intro hprefix
  obtain ⟨as, ha, rfl⟩ := h
  cases as with
  | nil => exact hn rfl
  | cons a as =>
    have hfits := ha a (List.mem_cons_self ..)
    rw [assemble_cons] at hprefix
    cases a with
    | char c => exact hfits.1 (List.cons_prefix_cons.1 hprefix).1.symm
    | entity name => exact absurd (List.cons_prefix_cons.1 hprefix).1 (by decide)
    | tag t =>
      rw [List.append_assoc] at hprefix
      rcases hfits with ⟨hname⟩ | ⟨hname⟩
      · exact (by simp [Inline.styleNames, Tag.source, Tag.inside, codeOpen] :
          ∀ name ∈ Inline.styleNames, ∀ r, ¬ codeOpen <+: (Tag.opening name []).source ++ r)
          _ hname _ hprefix
      · exact (by simp [Inline.styleNames, Tag.source, Tag.inside, codeOpen] :
          ∀ name ∈ Inline.styleNames, ∀ r, ¬ codeOpen <+: (Tag.closing name).source ++ r)
          _ hname _ hprefix

/-- In a code span, code begins nowhere but at its start. -/
theorem codeOpen_not_inside {s y x z : List Char} (h : codeSpan s = y ++ x) (hy : y ≠ [])
    (hx : x ≠ []) : ¬ codeOpen <+: x ++ z := by
  intro hprefix
  obtain ⟨c, y, rfl⟩ := List.exists_cons_of_ne_nil hy
  obtain ⟨d, x, rfl⟩ := List.exists_cons_of_ne_nil hx
  obtain rfl : '<' = d := (List.cons_prefix_cons.1 hprefix).1
  have hword : '<' ∉ "code>".toList ++ escaped s := by
    simp [lt_not_mem_escaped]
  have htail : ("code>".toList ++ escaped s) ++ codeClose = y ++ '<' :: x := by
    have hcons := (List.cons.inj h).2
    simpa [codeSpan, codeOpen] using hcons
  have hclose : ¬ codeOpen <+: codeClose ++ z := by simp [codeOpen, codeClose]
  rcases List.append_eq_append_iff.1 htail with ⟨k, rfl, hk⟩ | ⟨k, hk, hx⟩
  · cases k with
    | nil =>
      rw [← List.nil_append ('<' :: x), ← hk] at hprefix
      exact hclose hprefix
    | cons e k =>
      -- a closing tag has no second left bracket
      have hmem : '<' ∈ "/code>".toList := by
        have hrest : "/code>".toList = k ++ '<' :: x := (List.cons.inj hk).2
        rw [hrest]
        simp
      exact absurd hmem (by decide)
  · cases k with
    | nil =>
      rw [hx] at hprefix
      exact hclose hprefix
    | cons e k =>
      obtain ⟨rfl, -⟩ := List.cons.inj hx
      exact hword (by rw [hk]; simp)

/-- Where code begins in the markup of a line, a code span of it stands. -/
theorem Inline.Coded.starts {m : List Char} {ss : List (List Char)} (h : Coded m ss)
    {y x z : List Char} (hm : m = y ++ x) (hx : x ≠ []) (hcode : Markup.codeOpen <+: x ++ z) :
    ∃ s n, x = codeSpan s ++ n := by
  induction h generalizing x z with
  | nil => exact absurd (List.append_eq_nil_iff.1 hm.symm).2 hx
  | @other m n ss h hn ih =>
    rcases List.append_eq_append_iff.1 hm with ⟨y', rfl, rfl⟩ | ⟨x', rfl, rfl⟩
    · -- the place is in the part without code
      obtain ⟨c, x, rfl⟩ := List.exists_cons_of_ne_nil hx
      obtain rfl : '<' = c := (List.cons_prefix_cons.1 hcode).1
      have hstyle := (MadeOf.of_append (between_lt (fun t ht => ht.ofLine.known) y' x) hn).2
      exact absurd hcode (codeOpen_not_of_style hstyle hx z)
    · by_cases hx' : x' = []
      · subst hx'
        exact absurd hcode (codeOpen_not_of_style hn hx z)
      · rw [List.append_assoc] at hcode
        obtain ⟨s, k, rfl⟩ := ih rfl hx' hcode
        exact ⟨s, k ++ n, by simp⟩
  | @span m ss s h ih =>
    rcases List.append_eq_append_iff.1 hm with ⟨y', rfl, hs⟩ | ⟨x', rfl, rfl⟩
    · by_cases hy' : y' = []
      · exact ⟨s, [], by simp [hs, hy']⟩
      · exact absurd hcode (codeOpen_not_inside hs hy' hx)
    · by_cases hx' : x' = []
      · exact ⟨s, [], by simp [hx']⟩
      · rw [List.append_assoc] at hcode
        obtain ⟨t, k, rfl⟩ := ih rfl hx' hcode
        exact ⟨t, k ++ codeSpan s, by simp⟩

/-! ## Links and code -/

/-- A word that begins and ends with characters that do not stand around a text is in the
text. -/
theorem exists_inside {c d : Char} {l k r x w u : List Char} (hc : w.head? = some c)
    (hd : w.getLast? = some d) (hl : c ∉ l) (hr : d ∉ r) (h : l ++ k ++ r = x ++ w ++ u) :
    ∃ p v, x = l ++ p ∧ k = p ++ w ++ v := by
  have hw : w ≠ [] := by
    rintro rfl
    cases hc
  have hstart : ∃ p, x = l ++ p ∧ k ++ r = p ++ w ++ u := by
    rw [List.append_assoc, List.append_assoc] at h
    rcases List.append_eq_append_iff.1 h with ⟨p, hx, hk⟩ | ⟨p, hlp, hk⟩
    · exact ⟨p, hx, by rw [hk, List.append_assoc]⟩
    · cases p with
      | nil => exact ⟨[], by simpa using hlp.symm, by simpa using hk.symm⟩
      | cons e p =>
        have he : c = e := by
          have hhead := congrArg List.head? hk
          simpa [List.head?_append, hc] using hhead
        exact absurd (by rw [hlp, he]; simp) hl
  obtain ⟨p, rfl, hk⟩ := hstart
  refine ⟨p, ?_⟩
  rcases List.append_eq_append_iff.1 hk with ⟨v, hpw, hrv⟩ | ⟨v, hkv, -⟩
  · rcases List.eq_nil_or_concat v with rfl | ⟨v, e, rfl⟩
    · exact ⟨[], rfl, by simpa using hpw.symm⟩
    · have he : d = e := by
        have hlast := congrArg List.getLast? hpw
        simpa [List.getLast?_append, hd] using hlast
      exact absurd (by rw [hrv, he]; simp) hr
  · exact ⟨v, rfl, hkv⟩

/-- A code span that stands in a link as a whole stands in its label. -/
theorem Link.label_of_codeSpan {l : Link} (haddress : ∀ c ∈ l.address, inAddress c = true)
    {x s u : List Char} (h : l.source = x ++ codeSpan s ++ u) :
    ∃ p v, x = (if l.image then ['!'] else []) ++ '[' :: p ∧ l.label = p ++ codeSpan s ++ v := by
  have hhead : (codeSpan s).head? = some '<' := by simp [codeSpan, codeOpen]
  have hlast : (codeSpan s).getLast? = some '>' := by simp [codeSpan, codeClose]
  have hbefore : '<' ∉ (if l.image then ['!'] else []) ++ ['['] := by
    cases l.image <;> decide
  have hafter : '>' ∉ ']' :: '(' :: (l.address ++ [')']) := by
    have hgt : '>' ∉ l.address := fun hmem => absurd (haddress _ hmem) (by decide)
    simp [hgt]
  have hparts : ((if l.image then ['!'] else []) ++ ['[']) ++ l.label ++
      (']' :: '(' :: (l.address ++ [')'])) = x ++ codeSpan s ++ u := by
    rw [← h]
    simp [source]
  obtain ⟨p, v, hx, hlabel⟩ := exists_inside hhead hlast hbefore hafter hparts
  exact ⟨p, v, by rw [hx]; simp, hlabel⟩

/-- A code span is a piece where it is reached. -/
theorem read?_codeSpan (s b : List Char) :
    Piece.read? (codeSpan s ++ b) = some (.code (escaped s)) := by
  rw [Piece.read?, readCode?_codeSpan]

/-- A piece that starts before some place in the markup of a line and ends after it is a
link, if code begins there. -/
theorem Inline.Coded.straddles {y x u r : List Char} {ss : List (List Char)} {q : Piece}
    (h : Coded (y ++ x) ss) (hx : x ≠ []) (hu : u ≠ []) (hq : q.source = x ++ u)
    (hread : Piece.read? (q.source ++ r) = some q ∨ ∃ c, q = .char c) :
    ∃ l, q = .link l ∧ Link.read? (l.source ++ r) = some l := by
  cases q with
  | char c =>
    rcases List.append_eq_singleton_iff.1 hq.symm with ⟨hnil, -⟩ | ⟨-, hnil⟩
    · exact absurd hnil hx
    · exact absurd hnil hu
  | code body =>
    -- code before the place is closed before it
    have hcode : Markup.codeOpen <+: x ++ u := by
      rw [← hq, Piece.source, List.append_assoc]
      exact List.prefix_append ..
    obtain ⟨t, n, rfl⟩ := h.starts rfl hx hcode
    have hwhole : Piece.code body = .code (escaped t) := by
      rcases hread with hread | ⟨c, hc⟩
      · rw [hq, List.append_assoc, List.append_assoc, read?_codeSpan] at hread
        exact (Option.some.inj hread).symm
      · cases hc
    rw [hwhole] at hq
    have hrest : codeSpan t = codeSpan t ++ (n ++ u) := by
      rw [← List.append_assoc]
      exact hq
    exact absurd (List.append_eq_nil_iff.1 (List.self_eq_append_right.1 hrest)).2 hu
  | link l =>
    rcases hread with hread | ⟨c, hc⟩
    · rcases Piece.read?_cases hread with ⟨body, hbody, -⟩ | ⟨l', hl, hlink⟩
      · cases hbody
      · cases hl
        exact ⟨l, rfl, hlink⟩
    · cases hc

/-- A link straddles the start of a code span: it ends in the span, or the span stands in its
label. -/
theorem kept_or_of_straddles {m x u s b : List Char} {l : Link} {ps qs : List Piece}
    (hpieces : pieces m = ps ++ .link l :: qs) (hx : x ≠ []) (hu : u ≠ [])
    (hl : l.source = x ++ u) (haddress : ∀ c ∈ l.address, Link.inAddress c = true)
    (hafter : u ++ sourceOf qs = codeSpan s ++ b) :
    Kept m (sourceOf ps ++ x) (codeSpan s) b (linked m) ∨
      (∃ k, k.isLive = true ∧ LabelHolds m (sourceOf ps ++ x) (codeSpan s) k) ∨
      ∃ k, ReachesInto m (sourceOf ps ++ x) (codeSpan s) k := by
  have hxlength := List.length_pos_iff.2 hx
  have hulength := List.length_pos_iff.2 hu
  by_cases hshort : u.length < (codeSpan s).length
  · refine Or.inr (Or.inr ⟨l, ps, qs, hpieces, ?_, ?_, ?_⟩)
    · rw [List.length_append]
      omega
    · rw [hl]
      simp only [List.length_append]
      omega
    · rw [hl]
      simp only [List.length_append]
      omega
  · obtain ⟨v, rfl⟩ : codeSpan s <+: u :=
      List.prefix_of_prefix_length_le ⟨b, hafter.symm⟩ (List.prefix_append ..) (by omega)
    rw [List.append_assoc] at hafter
    rw [← List.append_assoc] at hl
    cases hlive : l.isLive with
    | true =>
      obtain ⟨p, v', rfl, hlabel⟩ := Link.label_of_codeSpan haddress hl
      exact Or.inr (Or.inl ⟨l, hlive, ps, qs, p, v', hpieces, hlabel, rfl⟩)
    | false =>
      refine Or.inl ⟨ps, [.link l], qs, x, v, ?_, rfl, ?_, ?_⟩
      · rw [hpieces, List.append_assoc]
        rfl
      · exact (List.append_cancel_left hafter).symm
      · rw [linked_eq, hpieces, ← hl]
        simp [Piece.markup, hlive]

/-- A code span that the search gets to stays as it is. -/
theorem kept_of_reached {m s b : List Char} {ps : List Piece}
    (hpieces : pieces m = ps ++ pieces (codeSpan s ++ b)) :
    Kept m (sourceOf ps) (codeSpan s) b (linked m) := by
  have hread : Piece.read? ((Piece.code (escaped s)).source ++ b) = some _ := read?_codeSpan s b
  have hspan : pieces (codeSpan s ++ b) = .code (escaped s) :: pieces b :=
    pieces_source_append hread
  rw [hspan] at hpieces
  refine ⟨ps, [.code (escaped s)], pieces b, [], [], ?_, ?_, (sourceOf_pieces b).symm, ?_⟩
  · rw [hpieces, List.append_assoc]
    rfl
  · rw [List.append_nil]
  · rw [linked_eq, hpieces]
    simp [Piece.markup, Piece.source, codeSpan]

/-- **A code span stays as it is, unless it stands in the label of a live link or a link
reaches into it.** -/
theorem kept_or {m a s b : List Char} {ss : List (List Char)} (hm : m = a ++ codeSpan s ++ b)
    (ha : Coded a ss) :
    Kept m a (codeSpan s) b (linked m) ∨
      (∃ l, l.isLive = true ∧ LabelHolds m a (codeSpan s) l) ∨
      ∃ l, ReachesInto m a (codeSpan s) l := by
  have hsource : sourceOf (pieces m) = a ++ (codeSpan s ++ b) := by
    rw [sourceOf_pieces, hm, List.append_assoc]
  obtain ⟨ps, qs, x, hpieces, rfl, hx⟩ := exists_split hsource
  obtain ⟨rest, hrest, rfl⟩ := pieces_eq_append hpieces
  obtain rfl : x ++ (codeSpan s ++ b) = rest := by
    rw [hm, List.append_assoc, List.append_assoc] at hrest
    exact List.append_cancel_left hrest
  by_cases hxnil : x = []
  · subst hxnil
    have hkept := kept_of_reached hpieces
    rw [List.append_nil]
    exact Or.inl hkept
  · obtain ⟨q, qs, hqs⟩ : ∃ q qs, pieces (x ++ (codeSpan s ++ b)) = q :: qs := by
      refine List.exists_cons_of_ne_nil fun hnil => ?_
      have hwhole := sourceOf_pieces (x ++ (codeSpan s ++ b))
      rw [hnil] at hwhole
      exact hxnil (List.append_eq_nil_iff.1 hwhole.symm).1
    have hlt := hx q qs hqs
    rw [hqs] at hpieces
    obtain ⟨after, hsplit, rfl, hread⟩ := pieces_eq_cons hqs
    -- the first piece of the rest straddles the start of the span
    obtain ⟨u, hq⟩ : x <+: q.source :=
      List.prefix_of_prefix_length_le (List.prefix_append ..) ⟨after, hsplit.symm⟩
        (Nat.le_of_lt hlt)
    have hu : u ≠ [] := by
      rintro rfl
      rw [← hq, List.append_nil] at hlt
      exact absurd hlt (Nat.lt_irrefl _)
    rw [hsplit] at hread
    obtain ⟨l, rfl, hlink⟩ := ha.straddles hxnil hu hq.symm hread
    have hl : l.source = x ++ u := hq.symm
    have hafter : u ++ sourceOf (pieces after) = codeSpan s ++ b := by
      rw [← hq, List.append_assoc] at hsplit
      rw [sourceOf_pieces, List.append_cancel_left hsplit]
    exact kept_or_of_straddles hpieces hxnil hu hl (Link.read?_eq_some hlink).1.address hafter

/-! ## Lines -/

namespace Inline

/-- **The code of a line.**  The scan reads the text between backticks as code, and each such
text that is not empty stands in its markup as a code span of its own, in order.  The span
comes out of the search for links as it is exactly if no live link meets it.  So it does if
it stands in no live label and no link reaches into it. -/
theorem codeSpan_render (text : String) :
    codeTexts (table.tokens text) = (codeParts none text.toList).map (rewrite escapeChar) ∧
      ∀ ss s rs, (codeParts none text.toList).filter (· ≠ []) = ss ++ s :: rs →
        ∃ a b, (table.run text).toList = a ++ codeSpan s ++ b ∧ Coded a ss ∧ Coded b rs ∧
          (Kept (table.run text).toList a (codeSpan s) b (render text).toList ↔
            ∀ l, Meets (table.run text).toList a (codeSpan s) l → l.isLive = false) ∧
          (Kept (table.run text).toList a (codeSpan s) b (render text).toList ∨
            (∃ l, l.isLive = true ∧ LabelHolds (table.run text).toList a (codeSpan s) l) ∨
            ∃ l, ReachesInto (table.run text).toList a (codeSpan s) l) := by
  obtain ⟨hcoded, htexts⟩ := coded_run text
  refine ⟨htexts, fun ss s rs hparts => ?_⟩
  have hrender : (render text).toList = linked (table.run text).toList := by
    rw [render, String.toList_ofList, resolveLinks_eq_linked]
  rw [hparts] at hcoded
  obtain ⟨a, b, hm, ha, hb⟩ := hcoded.split
  rw [hrender]
  exact ⟨a, b, hm, ha, hb, kept_iff hm, kept_or hm ha⟩

/-- A link that reaches into code does no harm if nothing after it in the code looks like a
link. -/
theorem codeSpan_render_refused :
    ∃ a b, (table.run "[a `[x](y)` b").toList = a ++ codeSpan "[x](y)".toList ++ b ∧
      Kept (table.run "[a `[x](y)` b").toList a (codeSpan "[x](y)".toList) b
        (render "[a `[x](y)` b").toList := by
  have hparts : (codeParts none "[a `[x](y)` b".toList).filter (· ≠ []) =
      [] ++ "[x](y)".toList :: [] := by
    decide +kernel
  have hstill : ∀ p ∈ pieces (table.run "[a `[x](y)` b").toList, p.live? = none := by
    decide +kernel
  obtain ⟨a, b, hm, -, -, hkept, -⟩ := (codeSpan_render "[a `[x](y)` b").2 [] _ [] hparts
  refine ⟨a, b, hm, hkept.2 ?_⟩
  rintro l ⟨ps, rs, hpieces, -, -⟩
  have hnone := hstill (.link l) (by rw [hpieces]; simp)
  exact Piece.live?_link_eq_none.1 hnone

/-- What looks like a link and ends in code is left as it is, but then the search goes on in
the code and finds a link there. -/
theorem not_codeSpan_render_straddled :
    codeParts none "[a `b](u) [x](y)`".toList = ["b](u) [x](y)".toList] ∧
      (∀ l ∈ liveLinks (table.run "[a `b](u) [x](y)`").toList,
        ¬ codeSpan "b](u) [x](y)".toList <:+: l.label) ∧
      ¬ codeSpan "b](u) [x](y)".toList <:+: (render "[a `b](u) [x](y)`").toList := by
  decide +kernel

end Inline

end Markup
end AnswerStream
