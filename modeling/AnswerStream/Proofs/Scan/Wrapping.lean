import AnswerStream.Proofs.Highlight.Rules
import AnswerStream.Proofs.Scan.Forest
import AnswerStream.Proofs.Scan.Reading

/-!
# A run without its wrappers

A table that rewrites characters in one way, writes tokens as they are and drops nothing
can only do one thing with a text: put regions around parts of it.  Take the texts that
open and close these regions away, and what is left is the text, each character rewritten
once and in its place (`Table.Plain.erased_run`).

What the rules look for plays no part, nor where they lead, how many characters they ask
for, or on which side of a boundary the characters end up.  A transition that asks for more
than is left of the text takes what is left.  Transitions that take nothing may send a
character round and round: after `hopLimit` of them it is kept like any other.
-/

namespace AnswerStream
namespace Scan

open Text

variable {σ : Type}

/-- A table with one way to rewrite characters that drops none and writes tokens as they
are. -/
structure Table.Plain (t : Table σ) : Prop where
  /-- No state has a way of its own to rewrite characters. -/
  chars_none : ∀ s, (t.rules s).chars = none
  /-- No state has a way of its own to write tokens. -/
  tokens_none : ∀ s, (t.rules s).tokens = none
  /-- No transition has a way of its own to rewrite characters. -/
  own_chars : ∀ s, ∀ tr ∈ (t.rules s).transitions, tr.chars = none
  /-- No transition has a way of its own to write tokens. -/
  own_tokens : ∀ s, ∀ tr ∈ (t.rules s).transitions, tr.tokens = none
  /-- No transition drops what it consumes. -/
  not_drop : ∀ s, ∀ tr ∈ (t.rules s).transitions, tr.placement ≠ some .drop

/-- Only a transition that says so drops what it consumes. -/
theorem Transition.place_ne_drop {tr : Transition σ} (h : tr.placement ≠ some .drop) :
    tr.place ≠ .drop := by
  unfold place
  cases hp : tr.placement with
  | some p => simpa [hp] using h
  | none => cases tr.target <;> simp

/-- The same table with no text around its regions. -/
def Table.bare (t : Table σ) : Table σ := t.wrapped { entry := fun _ => "", exit := fun _ => "" }

/-- The markup of a forest without the texts around its regions. -/
def Forest.erased (t : Table σ) : Forest σ → String
  | empty => ""
  | token before own k => before.erased t ++ Progress.written t own k
  | taken before s own cs => before.erased t ++ Progress.rewritten t s own cs
  | region before _ inside => before.erased t ++ inside.erased t

/-- Erasing the texts around regions is writing none. -/
theorem Forest.markup_bare (t : Table σ) (f : Forest σ) : f.markup t.bare = f.erased t := by
  induction f with
  | empty => rfl
  | token before own k ih =>
    rw [markup, erased, ih]
    rfl
  | taken before s own cs ih =>
    rw [markup, erased, ih]
    rfl
  | region before s inside ihb ihi =>
    have hw : t.bare.wrap { state := s, pair := none, content := inside.markup t.bare } =
        inside.markup t.bare := by
      unfold Table.wrap
      split
      · exact Eq.symm ‹_›
      · simp [Table.bare, Table.wrapped]
    rw [markup, erased, hw, ihb, ihi]

namespace Table.Plain

variable {t : Table σ}

/-- Every character is rewritten in the one way of the table. -/
theorem rewritten_eq (h : t.Plain) (s : σ) (cs : List Char) :
    Progress.rewritten t s none cs = rewrite t.chars cs := by
  rw [Progress.rewritten, h.chars_none]
  rfl

/-- Without the texts around regions, what is written is the text. -/
theorem reads_bare (h : t.Plain) :
    t.bare.Reads (fun m xs => m = rewrite t.chars xs) (fun p ys => p = rewrite t.chars ys)
      (fun _ => True) where
  nil := rfl
  start := trivial
  entry s m xs hm := by
    show m ++ "" = _
    rw [String.append_empty, hm]
  exit s m xs hm := by
    show m ++ "" = _
    rw [String.append_empty, hm]
  empty := rfl
  keep s p ys c hp := by
    have hc : Progress.rewritten t.bare s none [c] = rewrite t.chars [c] := h.rewritten_eq s [c]
    rw [hp, hc, rewrite_append]
  carried s tr cs ht _ := by
    rw [h.own_chars s tr ht.1]
    exact h.rewritten_eq s cs
  token m xs k ys own _ hm hk hown := by
    have hnone : own = none := by
      rcases hown with rfl | ⟨tr, htr, rfl⟩
      · rfl
      · exact h.own_tokens _ tr htr
    have hw : Progress.written t.bare own k = k.text := by
      have htokens : (t.bare.rules k.source).tokens = none := h.tokens_none _
      rw [Progress.written, hnone, htokens]
      rfl
    rw [hw, hm, hk, rewrite_append]
  shown m xs s tr cs ht _ _ hm := by
    have hc : Progress.rewritten t.bare s tr.chars cs = rewrite t.chars cs := by
      rw [h.own_chars s tr ht.1]
      exact h.rewritten_eq s cs
    rw [hm, hc, rewrite_append]
  dropped m xs s tr cs ht hdrop _ :=
    absurd hdrop (Transition.place_ne_drop (h.not_drop s tr ht.1))
  settled _ _ _ _ _ := trivial

variable [DecidableEq σ]

/-- **Nothing of a text is lost, doubled or moved.**  If the texts around the regions are
empty, a plain table writes the rewritten text.  If they are not, it writes a forest that
becomes the rewritten text when they are erased. -/
theorem erased_run (h : t.Plain) (text : String) :
    t.bare.run text = rewrite t.chars text.toList ∧
      ∃ f : Forest σ, f.IsShape t text ∧ f.markup t = t.run text ∧
        f.erased t = rewrite t.chars text.toList := by
  have hbare : t.bare.run text = rewrite t.chars text.toList := h.reads_bare.run text
  obtain ⟨f, hf⟩ := t.exists_shape text
  have herased : f.erased t = rewrite t.chars text.toList := by
    rw [← hbare, ← f.markup_bare]
    exact hf.markup_eq _
  exact ⟨hbare, f, hf, hf.markup_eq t.wrapper, herased⟩

/-- The table of style sheets is plain: all it does is mark parts of them. -/
theorem css : Highlight.Css.table.Plain where
  chars_none s := by cases s <;> rfl
  tokens_none s := by cases s <;> rfl
  own_chars s tr htr := (Highlight.Css.isRule_of_mem htr).chars_tokens.1
  own_tokens s tr htr := (Highlight.Css.isRule_of_mem htr).chars_tokens.2
  not_drop s tr htr hdrop :=
    (Highlight.Css.isRule_of_mem htr).place_ne.1 (Transition.place_of_some hdrop)

/-- A style sheet that ends inside a comment. -/
theorem erased_run_css : Highlight.Css.table.Plain ∧
    Highlight.Css.table.bare.run "b\x7bc:d/*<" =
      rewrite escapeChar ['b', '\x7b', 'c', ':', 'd', '/', '*', '<'] ∧
    ∃ f : Forest Highlight.Css.State, f.IsShape Highlight.Css.table "b\x7bc:d/*<" ∧
      f.markup Highlight.Css.table = Highlight.Css.table.run "b\x7bc:d/*<" ∧
      f.erased Highlight.Css.table =
        rewrite escapeChar ['b', '\x7b', 'c', ':', 'd', '/', '*', '<'] :=
  ⟨css, css.erased_run "b\x7bc:d/*<"⟩

end Table.Plain

end Scan
end AnswerStream
