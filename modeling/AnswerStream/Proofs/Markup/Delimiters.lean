import AnswerStream.Proofs.Markup.CodeSpan
import AnswerStream.Proofs.Markup.Links

/-!
# The delimiters of a line

The transitions of the scan inside a line are of eight sorts (`IsRule`).  Those that end a
region are found inside regions only.

Whatever fires does so at a delimiter and takes nothing but delimiters (`mem_taken`).  This is
not a matter of the transition alone: strong text and emphasis end at the character that their
region was opened with, whichever that is, so it has to be known that a region is opened with a
character of emphasis (`isEmphasisChar_of_gives`).

So every character other than a delimiter is written, and a line with such a character shows
something (`render_ne_empty`).
-/

namespace AnswerStream
namespace Markup
namespace Inline

open Text Scan

/-! ## The sorts of transitions -/

/-- The transitions of the state `s`. -/
inductive IsRule (s : State) : Transition State → Prop
  | codeOpen : IsRule s codeOpen
  | codeClose (inside : s = .code) : IsRule s codeClose
  | strikeOpen : IsRule s strikeOpen
  | strikeClose (inside : s ≠ .text) : IsRule s strikeClose
  | strongOpen (target : State) : IsRule s (strongOpen target)
  | strongClose (inside : s ≠ .text) : IsRule s strongClose
  | emOpen (target : State) : IsRule s (emOpen target)
  | emClose (inside : s ≠ .text) : IsRule s emClose

theorem isRule_of_mem {s : State} {tr : Transition State} (h : tr ∈ (rules s).transitions) :
    IsRule s tr := by
  cases s <;>
    simp only [rules, Rules.tagged, List.mem_cons, List.not_mem_nil, or_false] at h <;>
    rcases h with rfl | rfl | rfl | rfl <;> constructor <;> decide

/-! ## Delimiters -/

/-- Whether a character delimits a span. -/
def isDelimiter (c : Char) : Bool := isEmphasisChar c || c == '~' || c == '\x60'

/-- A region is opened with a character of emphasis, if with any. -/
theorem isEmphasisChar_of_gives {pair : Option Char} (h : table.Gives pair) :
    ∀ c ∈ pair, isEmphasisChar c = true := by
  rcases h with rfl | ⟨s, tr, htr, c, hfires, rfl⟩
  · simp
  · cases isRule_of_mem htr with
    | codeOpen | codeClose | strikeOpen | strikeClose | strongClose | emClose => rintro _ ⟨⟩
    | strongOpen | emOpen =>
      rintro _ ⟨⟩
      simp only [strongOpen, opensStrong, emOpen, opensEm, Bool.and_eq_true] at hfires
      exact hfires.1.1

theorem isDelimiter_of_pair {c : Context} (hpair : ∀ d ∈ c.pair, isEmphasisChar d = true)
    (h : (c.pair == some c.ch) = true) : isDelimiter c.ch = true := by
  rw [isDelimiter, hpair c.ch (beq_iff_eq.1 h)]
  rfl

/-- What fires does so at a delimiter. -/
theorem isDelimiter_of_fires {s : State} {tr : Transition State} {c : Context}
    (htr : tr ∈ (rules s).transitions) (hpair : ∀ d ∈ c.pair, isEmphasisChar d = true)
    (hfires : tr.fires c = true) : isDelimiter c.ch = true := by
  have htildes : c.startsWith ['~', '~'] = true → isDelimiter c.ch = true := by
    intro h
    have hch : c.ch = '~' := by
      simp only [Context.startsWith, List.isPrefixOf, Bool.and_eq_true, beq_iff_eq] at h
      exact h.1.symm
    simp [isDelimiter, hch]
  cases isRule_of_mem htr with
  | codeOpen | codeClose => simp [isDelimiter, beq_iff_eq.1 hfires]
  | strikeOpen => exact htildes (Bool.and_eq_true_iff.1 hfires).1
  | strikeClose => exact htildes hfires
  | strongOpen | emOpen =>
    simp only [strongOpen, opensStrong, emOpen, opensEm, Bool.and_eq_true] at hfires
    simp [isDelimiter, hfires.1.1]
  | strongClose => exact isDelimiter_of_pair hpair (Bool.and_eq_true_iff.1 hfires).1
  | emClose => exact isDelimiter_of_pair hpair hfires

/-- What fires takes nothing but delimiters. -/
theorem mem_taken {s : State} {tr : Transition State} {cs : List Char}
    (h : table.Takes s tr cs) : ∀ c ∈ cs, isDelimiter c = true := by
  obtain ⟨htr, c, hgives, hfires, rfl⟩ := h
  have hch := isDelimiter_of_fires htr (isEmphasisChar_of_gives hgives) hfires
  have hcode : tr = codeOpen ∨ tr = codeClose → ∀ d ∈ tr.taken c, isDelimiter d = true := by
    rintro (rfl | rfl) <;> simpa [Transition.taken, codeOpen, codeClose, Transition.reach] using hch
  have hapart : Apart tr → ∀ d ∈ tr.taken c, isDelimiter d = true := by
    intro hapart d hd
    rcases hapart.taken c hfires d hd with rfl | rfl
    · exact hch
    · decide
  by_cases hs : s = .code
  · subst hs
    exact hcode (Or.inr (List.mem_singleton.1 htr))
  · obtain ⟨trs, htrs, hall⟩ := transitions_eq hs
    have hmem : tr ∈ codeOpen :: trs := htrs ▸ htr
    rcases List.mem_cons.1 hmem with heq | hmem
    · exact hcode (Or.inl heq)
    · exact hapart (hall tr hmem)

/-! ## What is shown -/

/-- Markup shows a text: it is not empty, or there is nothing to be shown. -/
def ShowsText (m : String) (xs : List Char) : Prop := m ≠ "" ∨ ∀ c ∈ xs, isDelimiter c = true

theorem ShowsText.append {m n : String} {xs ys : List Char} (hm : ShowsText m xs)
    (hn : ShowsText n ys) : ShowsText (m ++ n) (xs ++ ys) := by
  rcases hm with hm | hxs
  · exact Or.inl fun h => hm (String.append_eq_empty_iff.1 h).1
  · rcases hn with hn | hys
    · exact Or.inl fun h => hn (String.append_eq_empty_iff.1 h).2
    · refine Or.inr fun c hc => ?_
      rcases List.mem_append.1 hc with hc | hc
      · exact hxs c hc
      · exact hys c hc

/-- The scan shows what it reads: it drops delimiters only. -/
theorem reads_showsText : table.Reads ShowsText ShowsText fun _ => True where
  nil := Or.inr (by simp)
  start := trivial
  entry s m xs h := by simpa using h.append (Or.inr (List.forall_mem_nil _) : ShowsText _ [])
  exit s m xs h := by simpa using h.append (Or.inr (List.forall_mem_nil _) : ShowsText _ [])
  empty := Or.inr (by simp)
  keep s p ys c h := by
    refine h.append (Or.inl ?_)
    rw [rewritten_eq, rewrite_singleton]
    exact escapeChar_ne_empty c
  carried s tr cs h hplace := by
    rw [(silent s tr h.1).place_eq] at hplace
    cases hplace
  token m xs k ys own _ hm hk hown := by
    have hnone : own = none := by
      rcases hown with rfl | ⟨tr, htr, rfl⟩
      · rfl
      · exact (silent _ tr htr).tokens_none
    rw [hnone, written_eq]
    exact hm.append hk
  shown m xs s tr cs h hplace := absurd (silent s tr h.1).place_eq hplace
  dropped m xs s tr cs h _ hm := by
    simpa using hm.append (Or.inr (mem_taken h) : ShowsText "" cs)
  settled _ _ _ _ _ := trivial

/-- Making links live leaves no piece of markup without a trace. -/
theorem resolveLinks_ne_nil {m : List Char} (h : m ≠ []) : resolveLinks m ≠ [] := by
  have hpiece : ∀ p : Piece, p.markup ≠ [] := by
    intro p
    cases p with
    | char c => exact (Piece.char c).source_ne_nil
    | code body => exact (Piece.code body).source_ne_nil
    | link l =>
      unfold Piece.markup
      dsimp only
      split
      · unfold Link.markup
        split <;> simp
      · exact (Piece.link l).source_ne_nil
  rw [resolveLinks_eq_linked, linked]
  cases hp : pieces m with
  | nil =>
    have hsource := source_pieces m
    rw [hp] at hsource
    exact absurd hsource.symm h
  | cons p ps =>
    rw [List.flatMap_cons]
    exact fun hnil => hpiece p (List.append_eq_nil_iff.1 hnil).1

/-- **A line with anything but delimiters shows something.** -/
theorem render_ne_empty {text : String} {c : Char} (hc : c ∈ text.toList)
    (h : isDelimiter c = false) : render text ≠ "" := by
  have hrun : table.run text ≠ "" := by
    refine (reads_showsText.run text).resolve_right fun hall => ?_
    rw [hall c hc] at h
    cases h
  have hlist : (table.run text).toList ≠ [] := by simpa using hrun
  intro hempty
  refine resolveLinks_ne_nil hlist ?_
  have htoList := congrArg String.toList hempty
  rwa [render, String.toList_ofList] at htoList

end Inline
end Markup
end AnswerStream
