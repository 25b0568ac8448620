import AnswerStream.Proofs.Markup.Address
import AnswerStream.Proofs.Markup.Untouched
import AnswerStream.Proofs.Text.Trim
import Mathlib.Data.List.Chain

/-!
# Stars and low lines in an address

A link is found in the markup of a line, so the scan for emphasis has been over its address
before.  Addresses have low lines in them, and a few have stars, which are meant to stay.  They
do unless two of a kind stand next to each other: emphasis starts after white space only, which
an address does not have, but strong text starts anywhere (`render_link_iff`).

## Why a doubled mark is the only reason

Without one nothing opens in the text of a link (`opensNothing_source_iff`), so the text is
copied, and the link is read back where it was written (`linked_source`).  Its address is
escaped by then, which changes neither its scheme nor what may stand in it.

With one a delimiter is lost, and all delimiters are in the address.  The anchor has them all,
though, and it can only come from a link that has them too (`address_of_linked`).
-/

namespace AnswerStream
namespace Markup

open Text Scan

variable {l : Link}

/-! ## Reading a link back -/

/-- A link is read where one is written. -/
theorem Link.read?_source (himage : l.image = false) (hproper : l.Proper) (rest : List Char) :
    Piece.read? (l.source ++ rest) = some (.link l) := by
  have hlink : Link.read? (l.source ++ rest) = some l :=
    Link.read?_eq_some_iff.2 ⟨hproper, rest, rfl⟩
  have hcode : Piece.readCode? (l.source ++ rest) = none := by
    rw [source, himage]
    rfl
  rw [Piece.read?, hcode, hlink]
  rfl

/-- **A live link that is all there is becomes its markup.** -/
theorem linked_source (himage : l.image = false) (hlive : l.isLive = true)
    (hlabel : ']' ∉ l.label) (haddress : ∀ c ∈ l.address, Link.inAddress c = true)
    (hne : l.address ≠ []) : linked l.source = l.markup := by
  have hread := Link.read?_source himage ⟨hlabel, hne, haddress⟩ []
  have hpieces := pieces_source_append (p := .link l) hread
  rw [Piece.source, List.append_nil] at hpieces
  rw [linked, hpieces]
  show (Piece.link l).markup ++ [] = _
  rw [List.append_nil, Link.markup_live hlive]

/-- A value ends at the first quote. -/
theorem eq_of_quoted {v v' rest rest' : List Char} (hv : '"' ∉ v) (hv' : '"' ∉ v')
    (h : v ++ '"' :: rest = v' ++ '"' :: rest') : v = v' := by
  have hvalue : ∀ {w : List Char} (r : List Char), '"' ∉ w →
      (w ++ '"' :: r).takeWhile (· ≠ '"') = w := by
    intro w r hw
    refine takeWhile_append_eq (fun c hc => decide_eq_true fun heq => hw (heq ▸ hc)) ?_
    rintro c ⟨⟩
    decide
  rw [← hvalue rest hv, h, hvalue rest' hv']

/-- Markup that starts with a bracket, and that its links make an anchor, has the address of
that anchor in it. -/
theorem address_of_linked {m : List Char} (himage : l.image = false)
    (haddress : '"' ∉ l.address) (h : linked ('[' :: m) = l.markup) :
    l.address <:+: '[' :: m := by
  have hfirst : (linked ('[' :: m)).head? = some '<' := by
    rw [h, Link.markup, himage]
    rfl
  cases hread : Piece.read? ('[' :: m) with
  | none =>
    rw [linked, pieces_cons_of_none hread] at hfirst
    cases hfirst
  | some p =>
    rcases Piece.read?_cases hread with ⟨body, rfl, after, hsource⟩ | ⟨found, rfl, hfound⟩
    · cases hsource
    · obtain ⟨hin, after, hsource⟩ := Link.read?_eq_some hfound
      have hpieces : pieces ('[' :: m) = .link found :: pieces after := by
        rw [hsource] at hread ⊢
        exact pieces_source_append (p := .link found) hread
      have hanchor : found.image = false := by
        cases hi : found.image with
        | false => rfl
        | true =>
          rw [Link.source, hi] at hsource
          cases hsource
      have hstart : found.source.head? = some '[' := by
        rw [Link.source, hanchor]
        rfl
      rw [linked, hpieces, List.flatMap_cons, Piece.markup] at h hfirst
      cases hlive : found.isLive with
      | false =>
        rw [hlive, if_neg (by decide), head?_append_left (by simp [Link.source]), hstart] at hfirst
        cases hfirst
      | true =>
        rw [hlive, if_pos rfl, Link.markup, hanchor, Link.markup, himage] at h
        have hsame : found.address = l.address := by
          refine eq_of_quoted (fun hquote => ?_) haddress (by simpa using h)
          exact absurd (hin.address '"' hquote) (by decide)
        rw [hsource, ← hsame, Link.source]
        exact ⟨'[' :: found.label ++ [']', '('], ')' :: after, by simp [hanchor]⟩

/-! ## What becomes of the address -/

/-- An escaped character is decoded to what it was. -/
theorem Decoder.decode_escapeChar (d : Decoder) {c : Char} (h : isControl c = false)
    (rest : List Char) : d.decode ((escapeChar c).toList ++ rest) = c :: d.decode rest := by
  unfold escapeChar
  split_ifs with hamp hlt hgt
  · rw [hamp]
    exact d.entity (by decide : ("amp", '&') ∈ entityMeanings) rest
  · rw [hlt]
    exact d.entity (by decide : ("lt", '<') ∈ entityMeanings) rest
  · rw [hgt]
    exact d.entity (by decide : ("gt", '>') ∈ entityMeanings) rest
  · rw [String.toList_singleton, List.singleton_append, d.char hamp h]

/-- Decoding undoes what escaping does to a text. -/
theorem Decoder.decode_escaped (d : Decoder) {cs : List Char}
    (h : ∀ c ∈ cs, isControl c = false) : d.decode (escaped cs) = cs := by
  induction cs with
  | nil => exact d.nil
  | cons c cs ih =>
    obtain ⟨hc, hcs⟩ := List.forall_mem_cons.1 h
    show d.decode ((escapeChar c).toList ++ escaped cs) = c :: cs
    rw [d.decode_escapeChar hc, ih hcs]

/-- A condition that the entities meet is met by escaped text if the text meets it. -/
theorem forall_mem_escaped {p : Char → Bool} (hentities : "&amp;&lt;&gt;".toList.all p = true)
    {cs : List Char} (h : ∀ c ∈ cs, p c = true) : ∀ c ∈ escaped cs, p c = true := by
  intro c hc
  rw [List.all_eq_true] at hentities
  obtain ⟨e, he, hc⟩ := List.mem_flatMap.1 hc
  unfold escapeChar at hc
  split_ifs at hc
  · exact hentities c ((by simp : "&amp;".toList ⊆ "&amp;&lt;&gt;".toList) hc)
  · exact hentities c ((by simp : "&lt;".toList ⊆ "&amp;&lt;&gt;".toList) hc)
  · exact hentities c ((by simp : "&gt;".toList ⊆ "&amp;&lt;&gt;".toList) hc)
  · rw [String.toList_singleton, List.mem_singleton] at hc
    exact hc ▸ h e he

theorem isControl_escaped {cs : List Char} (h : ∀ c ∈ cs, isControl c = false) :
    ∀ c ∈ escaped cs, isControl c = false := by
  have hshown := forall_mem_escaped (p := fun c => !isControl c) (by decide) (by simpa using h)
  simpa using hshown

/-- A link where it is found: its address is escaped. -/
def Link.inMarkup (l : Link) : Link := { l with address := escaped l.address }

/-- Escaping an address gives it no other scheme. -/
theorem Link.hasScheme_inMarkup (h : ∀ c ∈ l.address, isControl c = false) {scheme : String}
    (hscheme : ∀ c ∈ scheme.toList, c ∉ Decoder.meanings) :
    l.inMarkup.hasScheme scheme = l.hasScheme scheme := by
  have hprefix := Decoder.plain.prefix_iff (madeOf_escaped l.address) (isControl_escaped h) hscheme
  rw [Decoder.plain.decode_escaped h] at hprefix
  rw [Bool.eq_iff_iff, hasScheme_iff, hasScheme_iff]
  exact hprefix.symm

/-- So it is refused, or not, as it was. -/
theorem Link.isRefused_inMarkup (h : l.isRefused = false) : l.inMarkup.isRefused = false := by
  have hcontrol : ∀ c ∈ l.address, isControl c = false := by
    intro c hc
    simp only [isRefused, Bool.or_eq_false_iff] at h
    simpa using List.any_eq_false.1 h.1.1.1 c hc
  have hscheme : ∀ scheme ∈ ["javascript:", "vbscript:", "data:", "data:image/"],
      l.inMarkup.hasScheme scheme = l.hasScheme scheme := fun scheme hmem =>
    hasScheme_inMarkup hcontrol (Decoder.not_mem_meanings scheme hmem)
  have hany : l.inMarkup.address.any isControl = l.address.any isControl := by
    have hescaped : (escaped l.address).any isControl = false :=
      List.any_eq_false.2 (by simpa using isControl_escaped hcontrol)
    exact hescaped.trans (List.any_eq_false.2 (by simpa using hcontrol)).symm
  rw [isRefused] at h ⊢
  rw [hany, hscheme "javascript:" (by decide), hscheme "vbscript:" (by decide),
    hscheme "data:" (by decide), hscheme "data:image/" (by decide)]
  exact h

/-- Text without left brackets is level. -/
theorem isLevel_of_text {cs : List Char} (h : ∀ c ∈ cs, c ≠ '<') : isLevel cs = true := by
  have hread := segments_text_append h []
  rw [List.append_nil] at hread
  have hcount : ∀ p : Segment → Bool, (∀ c, p (.char c) = false) → (segments cs).countP p = 0 := by
    intro p hp
    rw [hread]
    show (cs.map Segment.char ++ []).countP p = 0
    rw [List.append_nil, List.countP_map]
    exact List.countP_eq_zero.2 fun c _ => by simp [hp]
  rw [isLevel, hcount _ fun _ => rfl, hcount _ fun _ => rfl]
  rfl

/-- A link goes live with its address escaped. -/
theorem Link.isLive_inMarkup (hne : l.label ≠ []) (htext : ∀ c ∈ l.label, c ≠ '<')
    (h : l.isRefused = false) : l.inMarkup.isLive = true := by
  have hlabel : l.inMarkup.label = l.label := rfl
  rw [isLive, isRefused_inMarkup h, hlabel, isLevel_of_text htext]
  simp [hne]

/-- The text of a link is escaped part by part. -/
theorem Link.escaped_source (hplain : ∀ c ∈ l.label, c ≠ '<' ∧ c ≠ '>' ∧ c ≠ '&') :
    escaped l.source = l.inMarkup.source := by
  have hmark : escaped (if l.image then ['!'] else []) = if l.image then ['!'] else [] := by
    cases l.image <;> decide
  have hlabel : escaped ('[' :: l.label) = '[' :: l.label :=
    escaped_of_plain (List.forall_mem_cons.2 ⟨by decide, hplain⟩)
  have hmiddle : escaped [']', '('] = [']', '('] := escaped_of_plain (by simp)
  have hback : escaped [')'] = [')'] := escaped_of_plain (by simp)
  have hsource : ∀ l : Link, l.source = (if l.image then ['!'] else []) ++ '[' :: l.label ++
      [']', '('] ++ l.address ++ [')'] := by
    intro l
    simp [source]
  rw [hsource, hsource, escaped_append, escaped_append, escaped_append, escaped_append, hmark,
    hlabel, hmiddle, hback]
  rfl

namespace Inline

/-! ## Where something opens in an address -/

/-- Whether a character may stand in an address of which nothing but its stars and low lines
could delimit a span. -/
def inUrl (c : Char) : Bool :=
  !(['(', ')', '<', '>', '"', '\x60', '~'].contains c || isBlank c || isControl c)

/-- Neither two stars nor two low lines stand next to each other. -/
def Undoubled (cs : List Char) : Prop := cs.IsChain fun a b => isEmphasisChar a = true → a ≠ b

instance (cs : List Char) : Decidable (Undoubled cs) :=
  inferInstanceAs (Decidable (cs.IsChain _))

theorem inUrl_spec {c : Char} (h : inUrl c = true) :
    Link.inAddress c = true ∧ isBlank c = false ∧ c ≠ '\x60' ∧ c ≠ '~' ∧ c ≠ ')' := by
  simp only [inUrl, Bool.not_eq_true', Bool.or_eq_false_iff] at h
  obtain ⟨⟨hmarks, hblank⟩, hcontrol⟩ := h
  have hne : ∀ d ∈ ['(', ')', '<', '>', '"', '\x60', '~'], c ≠ d := by
    rintro d hd rfl
    rw [List.contains_iff_mem.2 hd] at hmarks
    cases hmarks
  refine ⟨?_, hblank, hne _ (by simp), hne _ (by simp), hne _ (by simp)⟩
  simp only [List.mem_cons, List.not_mem_nil, or_false, forall_eq_or_imp, forall_eq] at hne
  simp only [isControl, Bool.or_eq_false_iff, Bool.and_eq_false_iff, decide_eq_false_iff_not]
    at hcontrol
  have hcode : ¬ c.toNat < 0x20 ∧ ¬ c.toNat = 0x7F := by omega
  simp [Link.inAddress, hne, hblank, hcode]

variable {before after u : List Char} {c : Char}

/-- Where no white space is behind, only strong text starts in an address. -/
theorem opens_of_inUrl (hbefore : isBlankAt before.head? = false) (hc : inUrl c = true) :
    opens before c after =
      (isEmphasisChar c && after.head? == some c && !isBlankAt after[1]?) := by
  obtain ⟨-, -, htick, htilde, -⟩ := inUrl_spec hc
  have hcode : (c == '\x60') = false := beq_false_of_ne htick
  have hstrike : ['~', '~'].isPrefixOf (c :: after) = false := by
    simp [List.isPrefixOf, beq_false_of_ne htilde.symm]
  simp [opens, rules, codeOpen, strikeOpen, strongOpen, emOpen, opensStrong, opensEm,
    Context.startsWith, Context.prev, Context.next, Context.peek, hbefore, hcode, hstrike]

/-- That is, at the first of two equal marks. -/
theorem opens_eq_false_iff (hbefore : isBlankAt before.head? = false) (hc : inUrl c = true)
    (hu : ∀ d ∈ u, inUrl d = true) :
    opens before c (u ++ [')']) = false ↔ ∀ d ∈ u.head?, isEmphasisChar c = true → c ≠ d := by
  rw [opens_of_inUrl hbefore hc]
  cases u with
  | nil => simp [Ne.symm (inUrl_spec hc).2.2.2.2]
  | cons d u =>
    have hnext : isBlankAt (u ++ [')'])[0]? = false := by
      cases u with
      | nil => rfl
      | cons e u => exact (inUrl_spec (hu e (by simp))).2.1
    show (isEmphasisChar c && some d == some c && !isBlankAt (u ++ [')'])[0]?) = false ↔ _
    rw [hnext]
    simp [eq_comm (a := d)]

theorem opensNothing_address_iff (hbefore : isBlankAt before.head? = false)
    (hu : ∀ c ∈ u, inUrl c = true) : OpensNothing before (u ++ [')']) ↔ Undoubled u := by
  induction u generalizing before with
  | nil => exact iff_of_true ⟨opens_of_not_delimiter (by decide), trivial⟩ .nil
  | cons c u ih =>
    obtain ⟨hc, hu⟩ := List.forall_mem_cons.1 hu
    rw [Undoubled, List.isChain_cons]
    exact and_congr (opens_eq_false_iff hbefore hc hu) (ih (inUrl_spec hc).2.1 hu)

/-- Nothing opens in the text of a link exactly if no mark is doubled in its address. -/
theorem opensNothing_source_iff (himage : l.image = false)
    (hlabel : ∀ c ∈ l.label, isDelimiter c = false) (haddress : ∀ c ∈ l.address, inUrl c = true) :
    OpensNothing [] l.source ↔ Undoubled l.address := by
  have hsource : l.source = ('[' :: (l.label ++ [']', '('])) ++ (l.address ++ [')']) := by
    simp [Link.source, himage]
  have hfront : ∀ c ∈ '[' :: (l.label ++ [']', '(']), isDelimiter c = false := by
    have hmarks : ∀ c ∈ [']', '('], isDelimiter c = false := by
      simp [isDelimiter, isEmphasisChar]
    exact List.forall_mem_cons.2 ⟨by decide, List.forall_mem_append.2 ⟨hlabel, hmarks⟩⟩
  rw [hsource, opensNothing_append hfront]
  have hparenthesis : (('[' :: (l.label ++ [']', '('])).reverse ++ []).head? = some '(' := by
    simp
  refine opensNothing_address_iff ?_ haddress
  rw [hparenthesis]
  decide

/-! ## The markup of a link -/

/-- A link to a page. -/
def link (label url : String) : Link where
  image := false
  label := label.toList
  address := url.toList

/-- A link as it is written. -/
def linkText (label url : String) : String := "[" ++ label ++ "](" ++ url ++ ")"

/-- A link that went live, with an address that is shown as it was written. -/
def anchorText (label url : String) : String :=
  "<a href=\"" ++ escape url ++ "\" target=\"_blank\" rel=\"noopener noreferrer\">" ++ label ++
    "</a>"

theorem toList_linkText (label url : String) :
    (linkText label url).toList = (link label url).source := by
  simp [linkText, link, Link.source]

theorem toList_anchorText (label url : String) :
    (anchorText label url).toList = (link label url).inMarkup.markup := by
  simp [anchorText, link, Link.inMarkup, Link.markup, escaped]

theorem letter_spec {c : Char} (h : c.isAlpha = true) :
    isDelimiter c = false ∧ c ≠ ']' ∧ c ≠ '<' ∧ c ≠ '>' ∧ c ≠ '&' := by
  refine ⟨?_, ?_, ?_, ?_, ?_⟩
  · rw [Bool.eq_false_iff, isDelimiter, isEmphasisChar]
    simp only [ne_eq, Bool.or_eq_true, beq_iff_eq]
    rintro (((rfl | rfl) | rfl) | rfl) <;> exact absurd h (by decide)
  all_goals
    rintro rfl
    exact absurd h (by decide)

theorem delimiters_linkText {label : String} (hlabel : ∀ c ∈ label.toList, isDelimiter c = false)
    (url : String) : delimiters (linkText label url) = delimiters url := by
  have hnone : delimiters label = 0 := List.countP_eq_zero.2 fun c hc => by simp [hlabel c hc]
  have hmarks : delimiters "[" = 0 ∧ delimiters "](" = 0 ∧ delimiters ")" = 0 := by decide
  rw [linkText, delimiters_append, delimiters_append, delimiters_append, delimiters_append, hnone,
    hmarks.1, hmarks.2.1, hmarks.2.2]
  omega

/-- A link whose anchor is found has kept its delimiters, so the scan has left it alone. -/
theorem run_eq_escape_of_linked {label url : String}
    (hlabel : ∀ c ∈ label.toList, isDelimiter c = false) (hquote : '"' ∉ escaped url.toList)
    (h : linked (table.run (linkText label url)).toList = (anchorText label url).toList) :
    table.run (linkText label url) = escape (linkText label url) := by
  obtain ⟨m, hrun⟩ := exists_run_eq (toList_linkText label url) (by decide)
  have hfirst : (table.run (linkText label url)).toList = '[' :: m.toList := by
    rw [hrun, String.toList_append]
    rfl
  have hinfix : (escape url).toList <:+: (table.run (linkText label url)).toList := by
    rw [toList_anchorText, hfirst] at h
    rw [hfirst, toList_escape_eq]
    exact address_of_linked (l := (link label url).inMarkup) rfl hquote h
  refine (run_eq_escape_iff _).2 (opensNothing_of_le ?_)
  calc delimiters (linkText label url) = delimiters (escape url) := by
        rw [delimiters_linkText hlabel, delimiters_escape]
    _ ≤ delimiters (table.run (linkText label url)) := hinfix.sublist.countP_le

/-- A link that the scan leaves alone becomes its anchor. -/
theorem linked_escape_linkText {label url : String} (hlabel : label ≠ "")
    (hletters : ∀ c ∈ label.toList, c.isAlpha = true) (hurl : url ≠ "")
    (haddress : ∀ c ∈ escaped url.toList, Link.inAddress c = true)
    (hscheme : (link label url).isRefused = false) :
    linked (escape (linkText label url)).toList = (anchorText label url).toList := by
  have hplain : ∀ c ∈ label.toList, c ≠ '<' ∧ c ≠ '>' ∧ c ≠ '&' := fun c hc =>
    (letter_spec (hletters c hc)).2.2
  have hlive : (link label url).inMarkup.isLive = true :=
    Link.isLive_inMarkup (mt String.toList_eq_nil_iff.1 hlabel) (fun c hc => (hplain c hc).1)
      hscheme
  have hclosed : ']' ∉ label.toList := fun hc => (letter_spec (hletters ']' hc)).2.1 rfl
  have hne : escaped url.toList ≠ [] := by
    rw [← toList_escape_eq]
    exact mt (fun h => rewrite_eq_empty.1 (String.toList_eq_nil_iff.1 h))
      (mt String.toList_eq_nil_iff.1 hurl)
  rw [toList_escape_eq, toList_linkText, Link.escaped_source hplain, toList_anchorText]
  exact linked_source rfl hlive hclosed haddress hne

/-- **The stars and low lines of an address stay exactly if none is doubled**, and then its link
goes live. -/
theorem render_link_iff {label url : String} (hlabel : label ≠ "")
    (hletters : ∀ c ∈ label.toList, c.isAlpha = true) (hurl : url ≠ "")
    (hchars : ∀ c ∈ url.toList, inUrl c = true)
    (hscheme : (link label url).isRefused = false) :
    render (linkText label url) = anchorText label url ↔ Undoubled url.toList := by
  have hclear : ∀ c ∈ label.toList, isDelimiter c = false := fun c hc =>
    (letter_spec (hletters c hc)).1
  have haddress : ∀ c ∈ escaped url.toList, Link.inAddress c = true :=
    forall_mem_escaped (by decide) fun c hc => (inUrl_spec (hchars c hc)).1
  have hquote : '"' ∉ escaped url.toList := fun h => absurd (haddress '"' h) (by decide)
  have hnothing : OpensNothing [] (linkText label url).toList ↔ Undoubled url.toList := by
    rw [toList_linkText]
    exact opensNothing_source_iff rfl hclear hchars
  rw [← hnothing, ← run_eq_escape_iff, ← String.toList_inj, render, String.toList_ofList,
    resolveLinks_eq_linked]
  constructor
  · exact run_eq_escape_of_linked hclear hquote
  · intro hrun
    rw [hrun]
    exact linked_escape_linkText hlabel hletters hurl haddress hscheme

/-- Single low lines stay, also next to a star and at either end. -/
theorem render_link_low_lines :
    ("docs" ≠ "" ∧ (∀ c ∈ "docs".toList, c.isAlpha = true) ∧ "_x.io/a_*b_c?d&e_" ≠ "" ∧
      (∀ c ∈ "_x.io/a_*b_c?d&e_".toList, inUrl c = true) ∧
      (link "docs" "_x.io/a_*b_c?d&e_").isRefused = false) ∧
      render (linkText "docs" "_x.io/a_*b_c?d&e_") = anchorText "docs" "_x.io/a_*b_c?d&e_" := by
  have hletters : ∀ c ∈ "docs".toList, c.isAlpha = true := List.all_eq_true.1 (by decide)
  have hchars : ∀ c ∈ "_x.io/a_*b_c?d&e_".toList, inUrl c = true :=
    List.all_eq_true.1 (by decide)
  have hscheme : (link "docs" "_x.io/a_*b_c?d&e_").isRefused = false := by decide
  refine ⟨⟨by decide, hletters, by decide, hchars, hscheme⟩, ?_⟩
  exact (render_link_iff (by decide) hletters (by decide) hchars hscheme).2 (by decide)

/-- Two low lines start strong text in the middle of an address, and there is no link. -/
theorem not_anchor_doubled :
    ((∀ c ∈ "docs".toList, c.isAlpha = true) ∧
      (∀ c ∈ "https://x.io/a__b".toList, inUrl c = true) ∧
      (link "docs" "https://x.io/a__b").isRefused = false) ∧
      render (linkText "docs" "https://x.io/a__b") = "[docs](https://x.io/a<strong>b)</strong>" ∧
      render (linkText "docs" "https://x.io/a__b") ≠ anchorText "docs" "https://x.io/a__b" :=
  ⟨⟨List.all_eq_true.1 (by decide), List.all_eq_true.1 (by decide), by decide⟩,
    by decide +kernel, by decide +kernel⟩

end Inline
end Markup
end AnswerStream
