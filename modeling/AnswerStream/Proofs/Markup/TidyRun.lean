import AnswerStream.Proofs.Markup.Nesting
import AnswerStream.Proofs.Scan.Forest

/-!
# Tables that write tidily

A table writes tidily if it escapes characters, or lets a transition write tidy
markup for them; if markup that becomes the content of a region stays tidy; and if
escaped tokens are written as tidy markup.  These are conditions on the rules, one
state at a time.  The runs of such a table are tidy, whatever its rules look for and
wherever they lead.
-/

namespace AnswerStream
namespace Markup

open Text Scan

variable {σ : Type} {T : Tag → Prop}

/-- A transition that writes no token in a way of its own, carries no text into one,
and writes tidy markup if it rewrites characters in a way of its own. -/
structure Modest (T : Tag → Prop) (tr : Transition σ) : Prop where
  tokens_none : tr.tokens = none
  not_carry : tr.place ≠ .carry
  tidy : ∀ f, tr.chars = some f → ∀ c, Tidy T (f c).toList

/-- A transition that has no way of its own to write anything. -/
theorem Modest.of_none {tr : Transition σ} (hc : tr.chars = none) (ht : tr.tokens = none)
    (hp : tr.place ≠ .carry) : Modest T tr :=
  ⟨ht, hp, fun f hf => by rw [hc] at hf; cases hf⟩

/-- What makes the runs of a table tidy. -/
structure WritesTidily (T : Tag → Prop) (t : Table σ) : Prop where
  /-- Characters are escaped. -/
  chars_eq : t.chars = escapeChar
  /-- No state has a way of its own to rewrite characters. -/
  chars_none : ∀ s, (t.rules s).chars = none
  /-- Transitions are modest. -/
  modest : ∀ s, ∀ tr ∈ (t.rules s).transitions, Modest T tr
  /-- The content of a region stays tidy. -/
  region : ∀ s m, Tidy T m → Tidy T ((t.rules s).entry.toList ++ m ++ (t.rules s).exit.toList)
  /-- Escaped tokens are written as tidy markup. -/
  token : ∀ s f, (t.rules s).tokens = some f →
    ∀ k : Token σ, ∀ u, k.text = escape u → Tidy T (f k).toList

/-- Text put together from tidy markup for each character. -/
theorem Tidy.rewrite (hT : ∀ t, T t → t.Known) {f : Char → String}
    (hf : ∀ c, Tidy T (f c).toList) (cs : List Char) : Tidy T (rewrite f cs).toList := by
  rw [toList_rewrite]
  induction cs with
  | nil => exact Tidy.nil
  | cons c cs ih => exact (hf c).append hT ih

theorem Tidy.escapeChar (c : Char) : Tidy T (escapeChar c).toList := by
  have hc : (Text.escapeChar c).toList = (Text.escape (String.singleton c)).toList := by simp
  rw [hc]
  exact Tidy.escape _

/-- A region without entry and exit text is its content. -/
theorem Tidy.bare {m : List Char} (h : Tidy T m) : Tidy T ("".toList ++ m ++ "".toList) := by
  simpa using h

namespace WritesTidily

variable [DecidableEq σ] {t : Table σ}

/-- The text of a token is escaped. -/
theorem exists_text_eq (h : WritesTidily T t) (text : String) :
    ∀ k ∈ t.tokens text, ∃ u, k.text = escape u := by
  refine t.forall_tokens_text (Q := fun s => ∃ u, s = escape u) ⟨"", rfl⟩ ?_ ?_ ?_ text
  · rintro _ _ ⟨u, rfl⟩ ⟨v, rfl⟩
    exact ⟨u ++ v, (escape_append u v).symm⟩
  · intro s c
    refine ⟨String.singleton c, ?_⟩
    rw [Progress.rewritten, h.chars_none, h.chars_eq]
    apply String.toList_injective
    simp
  · intro s tr htr hc
    exact absurd hc (h.modest s tr htr).not_carry

/-- **The runs of a table that writes tidily are tidy.** -/
theorem run (hT : ∀ t, T t → t.Known) (h : WritesTidily T t) (text : String) :
    Tidy T (t.run text).toList := by
  refine t.run_of (P := fun m => Tidy T m.toList) text Tidy.nil ?_ ?_ ?_ ?_
  · intro a b ha hb
    rw [String.toList_append]
    exact ha.append hT hb
  · intro s content hc
    rw [String.toList_append, String.toList_append]
    exact h.region s _ hc
  · intro k hk own hown
    obtain ⟨u, hu⟩ := h.exists_text_eq text k hk
    have hnone : own = none := by
      rcases hown with rfl | ⟨tr, htr, rfl⟩
      · rfl
      · exact (h.modest _ tr htr).tokens_none
    cases hf : (t.rules k.source).tokens with
    | none =>
      have hw : Progress.written t own k = escape u := by
        rw [hnone, Progress.written, hf, ← hu]
        rfl
      rw [hw]
      exact Tidy.escape u
    | some f =>
      have hw : Progress.written t own k = f k := by
        rw [hnone, Progress.written, hf]
        rfl
      rw [hw]
      exact h.token _ f hf k u hu
  · intro s tr htr cs _
    rw [Progress.rewritten, h.chars_none, h.chars_eq]
    cases hf : tr.chars with
    | none => exact Tidy.rewrite hT Tidy.escapeChar cs
    | some f => exact Tidy.rewrite hT ((h.modest s tr htr).tidy f hf) cs

end WritesTidily

end Markup
end AnswerStream
