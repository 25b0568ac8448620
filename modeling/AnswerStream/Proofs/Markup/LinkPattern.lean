import AnswerStream.Proofs.Markup.Links
import AnswerStream.Proofs.Text.Pattern

/-!
# Links as what a pattern finds

The search for links can be described without the pieces of markup: it replaces whatever
`linkPattern` finds.  The pattern has a finished code span as its first alternative, which is put
back as it was found, and a link or an image as the second, of which the mark, the label and the
address are remembered.  What a link is replaced by is read off these parts, and a link that is
refused is put back as well (`replacement`).

## Why the two searches agree

Which characters a link has is determined by where it starts, so the order in which the ways to fit
the pattern are tried is of no concern for it (`mem_ways_writtenLink`, `first?_writtenLink`).  For a
code span it is: any closing tag would do, and the first one counts, as `Pattern.first?_upTo` says.
So the pattern finds at each place the piece of markup that starts there (`first?_linkPattern`), and
the pieces are replaced one by one (`replaces_linked`).

No link is found without a bracket that meets a parenthesis, so it does no harm to look for these
two characters first.  What is not part of a link that goes live is copied (`converts_of_replaces`).
`replaces_iff_resolveLinks` puts it together.
-/

namespace AnswerStream
namespace Markup

open Text Text.Pattern

/-! ## The pattern -/

/-- A code span, up to the first tag that closes it. -/
def finishedCode : Pattern :=
  .andThen (.word codeOpen) (.andThen (.run false 0 fun _ => true) (.word codeClose))

/-- The label and the address of a link, which are remembered. -/
def labelAndAddress : Pattern :=
  .andThen (.word ['['])
    (.andThen (.group 2 (.run true 0 fun c => decide (c ≠ ']')))
      (.andThen (.word [']', '('])
        (.andThen (.group 3 (.run true 1 Link.inAddress)) (.word [')']))))

/-- The mark of an image, if there is one, which is remembered. -/
def markIfImage : Pattern := .group 1 (.orElse (.word ['!']) (.word []))

/-- A link or an image as it is written. -/
def writtenLink : Pattern := .andThen markIfImage labelAndAddress

/-- What the search for links looks for. -/
def linkPattern : Pattern := .orElse finishedCode writtenLink

/-- What is put in the place of what was found. -/
def replacement (m : Match) : List Char :=
  match m.group? 1, m.group? 2, m.group? 3 with
  | some mark, some label, some address =>
    let l : Link := { image := !mark.isEmpty, label, address }
    if l.isLive then l.markup else m.text
  | _, _, _ => m.text

/-! ## What the pattern finds -/

/-- What stands before a link, and what before an image. -/
def mark (image : Bool) : List Char := if image then ['!'] else []

/-- A link that was found before `rest`. -/
def Link.found (l : Link) (rest : List Char) : Match where
  text := l.source
  groups := [(1, mark l.image), (2, l.label), (3, l.address)]
  rest

/-- A piece that was found before `rest`. -/
def Piece.found (p : Piece) (rest : List Char) : Match :=
  match p with
  | link l => l.found rest
  | _ => { text := p.source, groups := [], rest }

theorem Piece.text_found (p : Piece) (rest : List Char) : (p.found rest).text = p.source := by
  cases p <;> rfl

theorem Piece.rest_found (p : Piece) (rest : List Char) : (p.found rest).rest = rest := by
  cases p <;> rfl

/-- A piece that is found is replaced by its markup. -/
theorem Piece.replacement_found (p : Piece) (rest : List Char) :
    replacement (p.found rest) = p.markup := by
  cases p with
  | link l =>
    have hmark : (!(mark l.image).isEmpty) = l.image := by cases l.image <;> rfl
    show (if ({ image := !(mark l.image).isEmpty, label := l.label, address := l.address } :
      Link).isLive then _ else l.source) = _
    rw [hmark]
    rfl
  | _ => rfl

/-- A label ends at the first right bracket whatever follows it, and an address at the first character
that cannot stand in one. -/
theorem mem_ways_labelAndAddress {cs : List Char} {m : Match} :
    m ∈ labelAndAddress.ways cs ↔ ∃ label address rest, ']' ∉ label ∧ address ≠ [] ∧
      (∀ c ∈ address, Link.inAddress c = true) ∧
      cs = '[' :: label ++ ']' :: '(' :: address ++ ')' :: rest ∧
      m = {
        text := '[' :: label ++ ']' :: '(' :: address ++ [')']
        groups := [(2, label), (3, address)]
        rest } := by
  constructor
  · intro h
    obtain ⟨_, m₁, h₁, rfl, rfl⟩ := mem_ways_word_andThen.1 h
    obtain ⟨label, _, m₂, h₂, rfl, hlabel, -, rfl⟩ := mem_ways_run_andThen.1 h₁
    obtain ⟨_, m₃, h₃, rfl, rfl⟩ := mem_ways_word_andThen.1 h₂
    obtain ⟨address, _, m₄, h₄, rfl, haddress, hpos, rfl⟩ := mem_ways_run_andThen.1 h₃
    obtain ⟨rest, rfl, rfl⟩ := mem_ways_word.1 h₄
    refine ⟨label, address, rest, fun hmem => ?_, List.length_pos_iff.1 hpos, haddress, ?_, ?_⟩
    · exact of_decide_eq_true (hlabel ']' hmem) rfl
    · simp
    · simp
  · rintro ⟨label, address, rest, hlabel, hne, haddress, rfl, rfl⟩
    have hin : ∀ c ∈ label, decide (c ≠ ']') = true :=
      fun c hc => decide_eq_true fun heq => hlabel (heq ▸ hc)
    -- the match is put together from its end
    refine mem_ways_word_andThen.2
      ⟨label ++ ([']', '('] ++ (address ++ ([')'] ++ rest))), _, mem_ways_run_andThen.2
        ⟨label, _, _, mem_ways_word_andThen.2
          ⟨_, _, mem_ways_run_andThen.2
            ⟨address, _, _, mem_ways_word.2 ⟨rest, rfl, rfl⟩, rfl, haddress,
              List.length_pos_iff.2 hne, rfl⟩, rfl, rfl⟩, rfl, hin, Nat.zero_le _, rfl⟩, ?_, ?_⟩
    · simp
    · simp

theorem mem_ways_markIfImage {cs : List Char} {m : Match} :
    m ∈ markIfImage.ways cs ↔ ∃ image rest, cs = mark image ++ rest ∧
      m = { text := mark image, groups := [(1, mark image)], rest } := by
  rw [markIfImage, mem_ways_group]
  constructor
  · rintro ⟨k, hk, rfl⟩
    rcases mem_ways_orElse.1 hk with hk | hk
    · obtain ⟨rest, rfl, rfl⟩ := mem_ways_word.1 hk
      exact ⟨true, rest, rfl, rfl⟩
    · obtain ⟨rest, rfl, rfl⟩ := mem_ways_word.1 hk
      exact ⟨false, _, rfl, rfl⟩
  · rintro ⟨image, rest, rfl, rfl⟩
    refine ⟨{ text := mark image, groups := [], rest }, mem_ways_orElse.2 ?_, rfl⟩
    cases image with
    | true => exact Or.inl (mem_ways_word.2 ⟨rest, rfl, rfl⟩)
    | false => exact Or.inr (mem_ways_word.2 ⟨rest, rfl, rfl⟩)

/-- The ways to find a link are the links that stand there. -/
theorem mem_ways_writtenLink {cs : List Char} {m : Match} :
    m ∈ writtenLink.ways cs ↔
      ∃ l : Link, l.Proper ∧ ∃ rest, cs = l.source ++ rest ∧ m = l.found rest := by
  constructor
  · intro h
    obtain ⟨k, hk, m₁, h₁, rfl⟩ := mem_ways_andThen.1 h
    obtain ⟨image, _, rfl, rfl⟩ := mem_ways_markIfImage.1 hk
    obtain ⟨label, address, rest, hlabel, hne, haddress, rfl, rfl⟩ :=
      mem_ways_labelAndAddress.1 h₁
    refine ⟨{ image, label, address }, ⟨hlabel, hne, haddress⟩, rest, ?_, ?_⟩
    · simp [Link.source, mark]
    · simp [Match.append, Link.found, Link.source, mark]
  · rintro ⟨l, hproper, rest, rfl, rfl⟩
    have hbody := mem_ways_labelAndAddress.2
      ⟨l.label, l.address, rest, hproper.label, hproper.address_ne_nil, hproper.address, rfl, rfl⟩
    refine mem_ways_andThen.2 ⟨_, mem_ways_markIfImage.2 ⟨l.image, _, ?_, rfl⟩, _, hbody, ?_⟩
    · simp [Link.source, mark]
    · simp [Match.append, Link.found, Link.source, mark]

/-- So there is one way to find a link at most. -/
theorem first?_writtenLink (cs : List Char) :
    writtenLink.first? cs =
      (Link.read? cs).map fun l => l.found (cs.drop l.source.length) := by
  cases hread : Link.read? cs with
  | none =>
    rw [Option.map_none, first?_eq_none, List.eq_nil_iff_forall_not_mem]
    intro m hm
    obtain ⟨l, hproper, rest, hrest, -⟩ := mem_ways_writtenLink.1 hm
    rw [Link.read?_eq_some_iff.2 ⟨hproper, rest, hrest⟩] at hread
    cases hread
  | some l =>
    obtain ⟨hproper, rest, rfl⟩ := Link.read?_eq_some hread
    rw [Option.map_some, List.drop_left]
    refine first?_eq_some_of_unique
      (mem_ways_writtenLink.2 ⟨l, hproper, rest, rfl, rfl⟩) fun k hk => ?_
    obtain ⟨l', hproper', rest', hrest', rfl⟩ := mem_ways_writtenLink.1 hk
    rw [Link.read?_eq_some_iff.2 ⟨hproper', rest', hrest'⟩] at hread
    cases hread
    rw [List.append_cancel_left hrest']

/-- A code span ends with the first tag that closes it. -/
theorem first?_finishedCode (cs : List Char) :
    finishedCode.first? cs =
      (Piece.readCode? cs).map fun p => p.found (cs.drop p.source.length) := by
  rw [finishedCode, first?_andThen, ways, Piece.readCode?]
  by_cases hopen : codeOpen.isPrefixOf cs = true
  · obtain ⟨inner, rfl⟩ := List.isPrefixOf_iff_prefix.1 hopen
    rw [if_pos hopen, if_pos hopen, List.drop_left, List.findSome?_singleton,
      first?_upTo (by simp [codeClose])]
    simp only
    by_cases hnone : (splitAtText codeClose inner).2 = []
    · rw [if_pos hnone, if_pos (List.isEmpty_iff.2 hnone)]
      rfl
    · obtain ⟨rest, hrest, hinner⟩ := exists_of_splitAtText hnone
      have hsource : codeOpen ++ inner =
          (Piece.code (splitAtText codeClose inner).1).source ++ rest := by
        rw [Piece.source, List.append_assoc, List.append_assoc, hinner]
      have hafter : (splitAtText codeClose inner).2.drop codeClose.length = rest := by
        rw [hrest, List.drop_left]
      rw [if_neg hnone, if_neg fun h => hnone (List.isEmpty_iff.1 h), Option.map_some,
        Option.map_some, hsource, List.drop_left, hafter]
      simp [Match.append, Piece.found, Piece.source]
  · rw [if_neg hopen, if_neg hopen]
    rfl

/-- **The pattern finds the piece that starts there.** -/
theorem first?_linkPattern (cs : List Char) :
    linkPattern.first? cs =
      (Piece.read? cs).map fun p => p.found (cs.drop p.source.length) := by
  rw [linkPattern, first?_orElse, first?_finishedCode, first?_writtenLink, Piece.read?]
  cases Piece.readCode? cs with
  | some p => rfl
  | none =>
    cases Link.read? cs with
    | none => rfl
    | some l => rfl

/-! ## Replacing what was found -/

/-- What comes out of the pieces is what comes out of the pattern. -/
theorem replaces_linked (m : List Char) : Replaces linkPattern replacement m (linked m) := by
  induction m using pieces_induction with
  | nil => exact .nil
  | char c cs hp ih =>
    have hfirst := first?_linkPattern (c :: cs)
    rw [hp] at hfirst
    rw [linked, pieces_cons_of_none hp]
    exact .copy hfirst ih
  | piece p rest hp ih =>
    have hfirst := first?_linkPattern (p.source ++ rest)
    rw [hp, Option.map_some, List.drop_left] at hfirst
    rw [linked, pieces_source_append hp, List.flatMap_cons, ← p.replacement_found rest]
    refine .replace hfirst (by rw [p.text_found]; exact p.source_ne_nil) ?_
    rw [p.rest_found]
    exact ih

/-- Some links of a text, of which no two overlap, are replaced by their markup, and all else is
copied. -/
inductive Converts : List Char → List Char → Prop
  | nil : Converts [] []
  /-- A character that is copied. -/
  | copy (c : Char) {m out : List Char} (rest : Converts m out) : Converts (c :: m) (c :: out)
  /-- A link or an image that goes live. -/
  | convert {l : Link} (proper : l.Proper) (live : l.isLive = true) {m out : List Char}
    (rest : Converts m out) : Converts (l.source ++ m) (l.markup ++ out)

theorem Converts.copy_append (cs : List Char) {m out : List Char} (h : Converts m out) :
    Converts (cs ++ m) (cs ++ out) := by
  induction cs with
  | nil => exact h
  | cons c cs ih => exact .copy c ih

/-- What the pattern finds is copied if it is no link that goes live. -/
theorem converts_of_replaces {m out : List Char} (h : Replaces linkPattern replacement m out) :
    Converts m out := by
  induction h with
  | nil => exact .nil
  | copy _ _ ih => exact .copy _ ih
  | @replace k cs out first _ _ ih =>
    rw [first?_linkPattern] at first
    obtain ⟨p, hp, rfl⟩ := Option.map_eq_some_iff.1 first
    obtain ⟨rest, rfl⟩ := Piece.read?_eq_some hp
    rw [p.rest_found, List.drop_left] at ih
    rw [p.replacement_found]
    rcases Piece.read?_cases hp with ⟨body, rfl, -⟩ | ⟨l, rfl, hl⟩
    · exact .copy_append _ ih
    · cases hlive : l.isLive with
      | true =>
        rw [Link.markup_live hlive]
        exact .convert (Link.read?_eq_some hl).1 hlive ih
      | false =>
        rw [Piece.markup, hlive]
        exact .copy_append _ ih

/-- **The search for links replaces what the pattern finds, and nothing but links.**  What it makes
of a text, with its look at the text before it starts, is exactly what comes out if everything that
the pattern finds is replaced without such a look; and that is the text with some links in it made
live and all else copied. -/
theorem replaces_iff_resolveLinks (m : List Char) :
    (∀ out, Replaces linkPattern replacement m out ↔ out = resolveLinks m) ∧
      Converts m (resolveLinks m) := by
  have hreplaces : Replaces linkPattern replacement m (resolveLinks m) := by
    rw [resolveLinks_eq_linked]
    exact replaces_linked m
  refine ⟨fun out => ⟨fun h => h.unique hreplaces, ?_⟩, converts_of_replaces hreplaces⟩
  rintro rfl
  exact hreplaces

end Markup
end AnswerStream
