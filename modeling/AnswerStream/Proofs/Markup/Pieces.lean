import AnswerStream.Markup.Link
import AnswerStream.Proofs.Markup.Tag
import AnswerStream.Proofs.Text.Trim

/-!
# The pieces of markup

`pieces` reads markup from left to right: a code span or a link where one starts, and a
character elsewhere.  What it reads makes up the markup again (`source_pieces`).

## Where pieces end

The markup of a line is made of characters, entities and the tags of a line.  A piece
never ends inside such a part: a code span ends with a tag, and the brackets and
parentheses of a link stand in no tag and no entity.  So the markup falls into stretches
that are left as they are and links that go live, and each stretch, each label and each
address is itself made of parts.  `Cut` says this, and `cut_pieces` proves it.
-/

namespace AnswerStream
namespace Markup

open Text

/-! ## Reading one piece -/

/-- A link that can be read back: the first right bracket is not in its label, and its address is
made of the characters of addresses. -/
structure Link.Proper (l : Link) : Prop where
  /-- The label ends at the first right bracket. -/
  label : ']' ∉ l.label
  /-- There is an address. -/
  address_ne_nil : l.address ≠ []
  /-- The address has nothing that ends one. -/
  address : ∀ c ∈ l.address, inAddress c = true

theorem Link.readBody_eq_some {image : Bool} {cs : List Char} {l : Link}
    (h : readBody image cs = some l) :
    l.image = image ∧ l.Proper ∧
      ∃ rest, cs = '[' :: l.label ++ ']' :: '(' :: l.address ++ ')' :: rest := by
  unfold readBody at h
  split at h
  · rename_i cs
    split at h
    · rename_i body hbody
      simp only at h
      split at h
      · rename_i rest hrest
        split at h
        · cases h
        · rename_i hne
          cases h
          have hlabel := List.takeWhile_append_dropWhile (p := (· ≠ ']')) (l := cs)
          have haddress := List.takeWhile_append_dropWhile (p := inAddress) (l := body)
          rw [hbody] at hlabel
          rw [hrest] at haddress
          refine ⟨rfl, ⟨fun hmem => ?_, fun hnil => hne (List.isEmpty_iff.2 hnil), fun c hc => ?_⟩, rest, ?_⟩
          · simpa using List.all_eq_true.1 (List.all_takeWhile (p := (· ≠ ']')) (l := cs)) ']' hmem
          · exact (List.all_eq_true.1 (List.all_takeWhile (p := inAddress) (l := body))) c hc
          · rw [List.append_assoc, List.cons_append, List.cons_append, List.cons_append, haddress,
              hlabel]
      · cases h
    · cases h
  · cases h

theorem Link.Proper.readBody {l : Link} (h : l.Proper) (rest : List Char) :
    readBody l.image ('[' :: l.label ++ ']' :: '(' :: l.address ++ ')' :: rest) = some l := by
  have hlabel : ∀ c ∈ l.label, decide (c ≠ ']') = true :=
    fun c hc => decide_eq_true fun heq => h.label (heq ▸ hc)
  have hbracket : ∀ c ∈ (']' :: '(' :: (l.address ++ ')' :: rest)).head?,
      decide (c ≠ ']') = false := by
    rintro c ⟨⟩
    decide
  have hclose : ∀ c ∈ (')' :: rest).head?, inAddress c = false := by
    rintro c ⟨⟩
    decide
  have hempty : l.address.isEmpty = false := by simpa using h.address_ne_nil
  rw [List.append_assoc, List.cons_append, List.cons_append, List.cons_append, Link.readBody]
  simp only [dropWhile_append_eq hlabel hbracket, dropWhile_append_eq h.address hclose,
    takeWhile_append_eq hlabel hbracket, takeWhile_append_eq h.address hclose, hempty]
  rfl

/-- A link is read where one is written, and nowhere else. -/
theorem Link.read?_eq_some_iff {cs : List Char} {l : Link} :
    read? cs = some l ↔ l.Proper ∧ ∃ rest, cs = l.source ++ rest := by
  constructor
  · intro h
    unfold read? at h
    split at h
    · obtain ⟨himage, hproper, rest, rfl⟩ := readBody_eq_some h
      exact ⟨hproper, rest, by simp [source, himage]⟩
    · obtain ⟨himage, hproper, rest, rfl⟩ := readBody_eq_some h
      exact ⟨hproper, rest, by simp [source, himage]⟩
  · rintro ⟨hproper, rest, rfl⟩
    have hbody := hproper.readBody rest
    cases himage : l.image with
    | false =>
      rw [himage] at hbody
      simpa [read?, source, himage] using hbody
    | true =>
      rw [himage] at hbody
      simpa [read?, source, himage] using hbody

theorem Link.read?_eq_some {cs : List Char} {l : Link} (h : read? cs = some l) :
    l.Proper ∧ ∃ rest, cs = l.source ++ rest :=
  Link.read?_eq_some_iff.1 h

theorem Piece.readCode?_eq_some {cs : List Char} {p : Piece} (h : readCode? cs = some p) :
    ∃ body rest, p = .code body ∧ cs = p.source ++ rest := by
  unfold readCode? at h
  split at h
  · rename_i hopen
    obtain ⟨inner, rfl⟩ := List.isPrefixOf_iff_prefix.1 hopen
    rw [List.drop_left] at h
    simp only at h
    split at h
    · cases h
    · rename_i hfound
      cases h
      obtain ⟨rest, -, hinner⟩ := exists_of_splitAtText fun hnil => hfound (List.isEmpty_iff.2 hnil)
      refine ⟨_, rest, rfl, ?_⟩
      rw [source, List.append_assoc, List.append_assoc, hinner]
  · cases h

/-- A piece that is read is a code span or a link. -/
theorem Piece.read?_cases {cs : List Char} {p : Piece} (h : read? cs = some p) :
    (∃ body, p = .code body ∧ ∃ rest, cs = p.source ++ rest) ∨
      ∃ l, p = .link l ∧ Link.read? cs = some l := by
  unfold read? at h
  split at h
  · rename_i q hcode
    cases h
    obtain ⟨body, rest, hbody, hrest⟩ := readCode?_eq_some hcode
    exact Or.inl ⟨body, hbody, rest, hrest⟩
  · obtain ⟨l, hl, rfl⟩ := Option.map_eq_some_iff.1 h
    exact Or.inr ⟨l, rfl, hl⟩

/-- A piece that is read is what the text starts with. -/
theorem Piece.read?_eq_some {cs : List Char} {p : Piece} (h : read? cs = some p) :
    ∃ rest, cs = p.source ++ rest := by
  rcases read?_cases h with ⟨_, _, hrest⟩ | ⟨l, rfl, hl⟩
  · exact hrest
  · exact (Link.read?_eq_some hl).2

/-- Pieces start with a left bracket of either kind or an exclamation mark. -/
theorem Piece.read?_eq_none {c : Char} (hc : c ≠ '<' ∧ c ≠ '[' ∧ c ≠ '!') (cs : List Char) :
    read? (c :: cs) = none := by
  have hcode : readCode? (c :: cs) = none := by
    have hprefix : codeOpen.isPrefixOf (c :: cs) = false := by
      simp [codeOpen, List.isPrefixOf, Ne.symm hc.1]
    rw [readCode?, hprefix]
    rfl
  have hlink : Link.read? (c :: cs) = none := by
    have hbody : Link.readBody false (c :: cs) = none := by
      unfold Link.readBody
      split
      · rename_i heq
        exact absurd (List.cons.inj heq).1 hc.2.1
      · rfl
    unfold Link.read?
    split
    · rename_i heq
      exact absurd (List.cons.inj heq).1 hc.2.2
    · exact hbody
  rw [read?, hcode, hlink]
  rfl

/-! ## Reading all pieces -/

theorem Piece.readAll_eq_drop (skip : Nat) (cs : List Char) :
    readAll skip cs = readAll 0 (cs.drop skip) := by
  induction cs generalizing skip with
  | nil => cases skip <;> rfl
  | cons c cs ih =>
    cases skip with
    | zero => rfl
    | succ skip =>
      rw [readAll, ih]
      rfl

theorem Piece.source_ne_nil (p : Piece) : p.source ≠ [] := by
  cases p <;> simp [source, codeOpen, Link.source]

/-- A piece is read where one starts, and the next one after it. -/
theorem pieces_source_append {p : Piece} {rest : List Char}
    (h : Piece.read? (p.source ++ rest) = some p) :
    pieces (p.source ++ rest) = p :: pieces rest := by
  cases hs : p.source with
  | nil => exact absurd hs p.source_ne_nil
  | cons c cs =>
    rw [hs, List.cons_append] at h
    rw [List.cons_append, pieces, Piece.readAll, h]
    simp only
    rw [Piece.readAll_eq_drop, hs]
    simp [pieces]

/-- A character is a piece where none starts. -/
theorem pieces_cons_of_none {c : Char} {cs : List Char} (h : Piece.read? (c :: cs) = none) :
    pieces (c :: cs) = .char c :: pieces cs := by
  rw [pieces, Piece.readAll, h]
  rfl

/-- No piece starts in text without brackets and exclamation marks. -/
theorem pieces_text_append {cs : List Char} (h : ∀ c ∈ cs, c ≠ '<' ∧ c ≠ '[' ∧ c ≠ '!')
    (rest : List Char) : pieces (cs ++ rest) = cs.map .char ++ pieces rest := by
  induction cs with
  | nil => rfl
  | cons c cs ih =>
    rw [List.cons_append, pieces_cons_of_none (Piece.read?_eq_none (h c (List.mem_cons_self ..)) _),
      ih fun d hd => h d (List.mem_cons_of_mem _ hd)]
    rfl

/-- Markup is empty, or starts with a character where no piece starts, or with a piece. -/
@[elab_as_elim]
theorem pieces_induction {motive : List Char → Prop} (nil : motive [])
    (char : ∀ c cs, Piece.read? (c :: cs) = none → motive cs → motive (c :: cs))
    (piece : ∀ (p : Piece) rest, Piece.read? (p.source ++ rest) = some p → motive rest →
      motive (p.source ++ rest)) (m : List Char) : motive m := by
  induction hn : m.length using Nat.strongRecOn generalizing m with
  | ind n ih =>
    cases m with
    | nil => exact nil
    | cons c cs =>
      cases hp : Piece.read? (c :: cs) with
      | none => exact char c cs hp (ih cs.length (by simp [← hn]) cs rfl)
      | some p =>
        obtain ⟨rest, hrest⟩ := Piece.read?_eq_some hp
        have hlt : rest.length < n := by
          have hlength := congrArg List.length hrest
          have hpos := List.length_pos_iff.2 p.source_ne_nil
          rw [List.length_append, hn] at hlength
          omega
        rw [hrest] at hp ⊢
        exact piece p rest hp (ih rest.length hlt rest rfl)

/-- The pieces of markup make it up. -/
theorem source_pieces (m : List Char) : (pieces m).flatMap Piece.source = m := by
  induction m using pieces_induction with
  | nil => rfl
  | char c cs hp ih =>
    rw [pieces_cons_of_none hp, List.flatMap_cons, ih]
    rfl
  | piece p rest hp ih => rw [pieces_source_append hp, List.flatMap_cons, ih]

/-! ## Cutting the markup of a line -/

/-- The link of a piece, if it goes live. -/
def Piece.live? : Piece → Option Link
  | link l => if l.isLive then some l else none
  | _ => none

theorem Piece.live?_eq_some {p : Piece} {l : Link} (h : p.live? = some l) :
    p = .link l ∧ l.isLive = true := by
  cases p with
  | link k =>
    rw [live?] at h
    split at h
    · cases h
      exact ⟨rfl, ‹_›⟩
    · cases h
  | _ => cases h

/-- A piece without a live link is left as it is. -/
theorem Piece.markup_of_live?_eq_none {p : Piece} (h : p.live? = none) :
    p.markup = p.source := by
  cases p with
  | link l =>
    rw [live?] at h
    split at h
    · cases h
    · rw [markup, if_neg ‹_›]
      rfl
  | _ => rfl

/-- The marks of a link. -/
def linkMarks : List Char := ['[', ']', '(', ')', '!']

/-- The marks of a link stand in no tag of a line and in no entity. -/
theorem literal_mark : ∀ c ∈ linkMarks, Literal Tag.OfLine c := by
  intro c hc
  refine ⟨?_, ?_, fun t ht => ?_⟩
  · exact (by simp [linkMarks] : ∀ c ∈ linkMarks, c ≠ '<' ∧ c ≠ '>' ∧ c ≠ '&') c hc
  · exact (by simp [linkMarks, Atom.entities] :
      ∀ c ∈ linkMarks, ∀ n ∈ Atom.entities, c ∉ n.toList ++ [';']) c hc
  · rcases ht with ⟨h⟩ | ⟨h⟩
    · exact (by simp [linkMarks, Tag.lineNames, Tag.inside] :
        ∀ c ∈ linkMarks, ∀ n ∈ Tag.lineNames, c ∉ (Tag.opening n []).inside) c hc _ h
    · exact (by simp [linkMarks, Tag.lineNames, Tag.inside] :
        ∀ c ∈ linkMarks, ∀ n ∈ Tag.lineNames, c ∉ (Tag.closing n).inside) c hc _ h

/-- The markup of a line falls into stretches without a live link and live links. -/
inductive Cut : List Char → List Piece → Prop
  | nil : Cut [] []
  /-- A stretch that is left as it is. -/
  | still {n m : List Char} {qs ps : List Piece} (made : MadeOf Tag.OfLine n)
    (source : qs.flatMap Piece.source = n) (still : ∀ q ∈ qs, q.live? = none) (rest : Cut m ps) :
    Cut (n ++ m) (qs ++ ps)
  /-- A link that goes live. -/
  | live {l : Link} {m : List Char} {ps : List Piece} (live : l.isLive = true)
    (made : MadeOf Tag.OfLine l.source) (label : MadeOf Tag.OfLine l.label)
    (address : ∀ c ∈ l.address, Link.inAddress c = true) (rest : Cut m ps) :
    Cut (l.source ++ m) (.link l :: ps)

/-- The markup of a line can be cut around a link and inside it. -/
theorem MadeOf.of_link {l : Link} {rest : List Char} (h : MadeOf Tag.OfLine (l.source ++ rest)) :
    MadeOf Tag.OfLine l.label ∧ MadeOf Tag.OfLine l.source ∧ MadeOf Tag.OfLine rest := by
  have hword : ∀ w : List Char, w ≠ [] → w ⊆ linkMarks →
      ∀ {a b : List Char}, MadeOf Tag.OfLine (a ++ w ++ b) →
        MadeOf Tag.OfLine a ∧ MadeOf Tag.OfLine w ∧ MadeOf Tag.OfLine b := by
    intro w hne hw a b hab
    have hcut := hab.of_append_word (fun c hc => literal_mark c (hw hc)) hne
    exact ⟨hcut.1, MadeOf.text fun c hc => (literal_mark c (hw hc)).plain, hcut.2⟩
  have hbegin : (if l.image then ['!'] else []) ++ ['['] ⊆ linkMarks := by
    cases l.image <;> simp [linkMarks]
  have hsource : l.source = ((if l.image then ['!'] else []) ++ ['[']) ++ l.label ++ [']', '('] ++
      l.address ++ [')'] := by
    simp [Link.source]
  rw [hsource] at h ⊢
  -- one word of marks after the other, the last one first
  obtain ⟨hhead, hclose, hrest⟩ := hword [')'] (by simp) (by simp [linkMarks]) h
  obtain ⟨hlabel, hmiddle, haddress⟩ := hword [']', '('] (by simp) (by simp [linkMarks]) hhead
  have hopen := hword ((if l.image then ['!'] else []) ++ ['[']) (by simp) hbegin (a := []) hlabel
  exact ⟨hopen.2.2, (((hopen.2.1.append hopen.2.2).append hmiddle).append haddress).append hclose,
    hrest⟩

/-- A part of a line without its first character starts no piece. -/
theorem Atom.Fits.exists_cons {a : Atom} (h : a.Fits Tag.OfLine) :
    ∃ c cs, a.source = c :: cs ∧ ∀ d ∈ cs, d ≠ '<' ∧ d ≠ '[' ∧ d ≠ '!' := by
  cases a with
  | char c => exact ⟨c, [], rfl, by simp⟩
  | entity name =>
    exact ⟨'&', _, rfl, (by simp [entities, or_imp, forall_and] : ∀ n ∈ entities,
      ∀ d ∈ n.toList ++ [';'], d ≠ '<' ∧ d ≠ '[' ∧ d ≠ '!') name h⟩
  | tag t =>
    refine ⟨'<', _, rfl, ?_⟩
    rcases h with ⟨h⟩ | ⟨h⟩
    · exact (by simp [Tag.lineNames, Tag.inside, or_imp, forall_and] : ∀ n ∈ Tag.lineNames,
        ∀ d ∈ (Tag.opening n []).inside ++ ['>'], d ≠ '<' ∧ d ≠ '[' ∧ d ≠ '!') _ h
    · exact (by simp [Tag.lineNames, Tag.inside, or_imp, forall_and] : ∀ n ∈ Tag.lineNames,
        ∀ d ∈ (Tag.closing n).inside ++ ['>'], d ≠ '<' ∧ d ≠ '[' ∧ d ≠ '!') _ h

/-- The first stretch or live link of the markup of a line. -/
def CutsFirst (m : List Char) : Prop :=
  ∃ n qs rest, m = n ++ rest ∧ n ≠ [] ∧ pieces m = qs ++ pieces rest ∧ MadeOf Tag.OfLine rest ∧
    ∀ ps, Cut rest ps → Cut (n ++ rest) (qs ++ ps)

/-- Where no piece starts, the part that starts there is left as it is. -/
theorem cutsFirst_of_none {m : List Char} (h : MadeOf Tag.OfLine m) (hm : m ≠ [])
    (hp : Piece.read? m = none) : CutsFirst m := by
  obtain ⟨as, ha, has⟩ := h
  cases as with
  | nil => exact absurd has.symm hm
  | cons a as =>
    have hfits := ha a (List.mem_cons_self ..)
    obtain ⟨d, ds, hsource, hds⟩ := hfits.exists_cons
    rw [assemble_cons, hsource] at has
    have hchars : ∀ l : List Char, (l.map Piece.char).flatMap Piece.source = l := by
      intro l
      induction l with
      | nil => rfl
      | cons e l ih => simp [Piece.source, ih]
    refine ⟨d :: ds, (d :: ds).map .char, assemble as, has.symm, by simp, ?_, ?_, fun ps => ?_⟩
    · rw [← has, List.cons_append] at hp ⊢
      rw [pieces_cons_of_none hp, pieces_text_append hds]
      rfl
    · exact ⟨as, fun b hb => ha b (List.mem_cons_of_mem _ hb), rfl⟩
    · refine .still (hsource ▸ MadeOf.atom hfits) (hchars _) fun q hq => ?_
      obtain ⟨e, _, rfl⟩ := List.mem_map.1 hq
      rfl

/-- A single piece that is left as it is. -/
theorem Cut.still_cons {p : Piece} {m : List Char} {ps : List Piece}
    (made : MadeOf Tag.OfLine p.source) (hp : p.live? = none) (h : Cut m ps) :
    Cut (p.source ++ m) ([p] ++ ps) :=
  .still made (by simp) (by simpa using hp) h

/-- A code span ends with a tag, and a link with a parenthesis. -/
theorem cutsFirst_of_some {m : List Char} (h : MadeOf Tag.OfLine m) {p : Piece}
    (hp : Piece.read? m = some p) : CutsFirst m := by
  obtain ⟨rest, rfl⟩ := Piece.read?_eq_some hp
  have hpieces := pieces_source_append hp
  rcases Piece.read?_cases hp with ⟨body, rfl, _⟩ | ⟨l, rfl, hl⟩
  · have hends : (Piece.code body).source = (codeOpen ++ body ++ "</code".toList) ++ ['>'] := by
      simp [Piece.source, codeClose]
    rw [hends] at h
    obtain ⟨hmade, hrest⟩ := MadeOf.of_append (between_gt (fun t => Tag.OfLine.known) _ _) h
    refine ⟨_, [.code body], rest, rfl, Piece.source_ne_nil _, hpieces, hrest, fun ps => ?_⟩
    exact .still_cons (hends ▸ hmade) rfl
  · obtain ⟨hlabel, hsource, hrest⟩ := MadeOf.of_link h
    refine ⟨_, [.link l], rest, rfl, Piece.source_ne_nil _, hpieces, hrest, fun ps hcut => ?_⟩
    cases hlive : l.isLive with
    | true => exact .live hlive hsource hlabel (Link.read?_eq_some hl).1.address hcut
    | false => exact .still_cons hsource (by simp [Piece.live?, hlive]) hcut

/-- **The pieces of the markup of a line cut it.** -/
theorem cut_pieces {m : List Char} (h : MadeOf Tag.OfLine m) : Cut m (pieces m) := by
  induction hn : m.length using Nat.strongRecOn generalizing m with
  | ind n ih =>
    by_cases hm : m = []
    · subst hm
      exact .nil
    · have hfirst : CutsFirst m := by
        cases hp : Piece.read? m with
        | none => exact cutsFirst_of_none h hm hp
        | some p => exact cutsFirst_of_some h hp
      obtain ⟨k, qs, rest, hsplit, hne, hpieces, hrest, hcut⟩ := hfirst
      have hlt : rest.length < n := by
        have hpos := List.length_pos_iff.2 hne
        rw [← hn, hsplit, List.length_append]
        omega
      rw [hpieces, hsplit]
      exact hcut _ (ih _ hlt hrest rfl)

end Markup
end AnswerStream
