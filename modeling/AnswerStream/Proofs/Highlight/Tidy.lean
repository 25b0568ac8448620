import AnswerStream.Highlight.Language
import AnswerStream.Proofs.Highlight.Rules
import AnswerStream.Proofs.Markup.TidyRun

/-!
# Marked code is tidy

Whatever a highlighter is given, its markup is escaped text with `span` tags around
parts of it, and the tags nest.  There are four grammars and one argument: the table
of each writes tidily.

## Embedded bodies

Placeholders are replaced after the scan, in markup.  A placeholder is a word of
characters that stand in no tag, so the markup around it is made of whole parts, and
what is put in its place is well nested by itself.
-/

namespace AnswerStream
namespace Highlight

open Text Scan Markup

/-- Markup that a highlighter may write. -/
abbrev Marked (m : String) : Prop := Tidy Tag.OfCode m.toList

/-- Tidy markup inside a `span` of a role. -/
theorem tidy_span (r : Role) {m : List Char} (h : Tidy Tag.OfCode m) :
    Tidy Tag.OfCode
      (("<span class=\"" ++ r.cls ++ "\">").toList ++ m ++ "</span>".toList) := by
  have hwrap := Tidy.wrap (fun _ => Tag.OfCode.known) (.opening r) .closing (by decide) h
  have heq : ("<span class=\"" ++ r.cls ++ "\">").toList =
      (Tag.opening "span" [("class", r.cls.toList)]).source := by
    simp [Tag.source, Tag.inside, Tag.attributeText]
  rw [heq]
  exact hwrap

/-- Markup stays tidy when it is marked with a role. -/
theorem Marked.mark {m : String} (r : Role) (h : Marked m) : Marked (r.mark m) := by
  have heq : (r.mark m).toList =
      ("<span class=\"" ++ r.cls ++ "\">").toList ++ m.toList ++ "</span>".toList := by
    show ("<span class=\"" ++ r.cls ++ "\">" ++ m ++ "</span>").toList = _
    rw [String.toList_append, String.toList_append]
  rw [Marked, heq]
  exact tidy_span r h

/-! ## The four grammars -/

theorem Marked.classify (keywords : List String) (anyCase : Bool) (before : Option Char)
    {word : String} (h : Marked word) :
    Marked (Expression.classify keywords anyCase before word) := by
  unfold Expression.classify
  split
  · exact Tidy.nil
  · split
    · exact h.mark _
    · exact h

theorem Expression.writesTidily (p : Profile) (name : String) :
    WritesTidily Tag.OfCode (Expression.table p name) where
  chars_eq := rfl
  chars_none s := by cases s <;> rfl
  modest s tr htr := by
    have hrule := Expression.isRule_of_mem htr
    exact .of_none hrule.chars_tokens.1 hrule.chars_tokens.2 hrule.place_ne.2
  region s m h := by
    cases s with
    | normal => exact Tidy.bare h
    | string => exact tidy_span .string h
    | lineComment => exact tidy_span .comment h
    | blockComment => exact tidy_span .comment h
    | regex => exact tidy_span .regex h
  token s f hf k u hu := by
    cases s with
    | normal =>
      obtain rfl := Option.some.inj hf
      show Marked (Expression.classify _ _ _ k.text)
      rw [hu]
      exact Marked.classify _ _ _ (Tidy.escape u)
    | _ => cases hf

theorem Css.writesTidily : WritesTidily Tag.OfCode Css.table where
  chars_eq := rfl
  chars_none s := by cases s <;> rfl
  modest s tr htr := by
    have hrule := Css.isRule_of_mem htr
    exact .of_none hrule.chars_tokens.1 hrule.chars_tokens.2 hrule.place_ne.2
  region s m h := by
    cases s with
    | selector => exact tidy_span .selector h
    | property => exact tidy_span .property h
    | value => exact tidy_span .value h
    | string => exact tidy_span .string h
    | comment => exact tidy_span .comment h
  token s f hf := by cases s <;> cases hf

theorem Yaml.writesTidily : WritesTidily Tag.OfCode Yaml.table where
  chars_eq := rfl
  chars_none s := by cases s <;> rfl
  modest s tr htr := by
    have hentry : Modest Tag.OfCode Yaml.entry := by
      refine ⟨rfl, by simp [Transition.place, Yaml.entry], fun f hf c => ?_⟩
      rw [← Option.some.inj hf]
      exact Marked.mark .branch (Tidy.escape "-")
    cases Yaml.isRule_of_mem htr with
    | entry => exact hentry
    | _ =>
      exact .of_none rfl rfl (by simp [Transition.place, Yaml.comment, Yaml.string, Yaml.newline])
  region s m h := by
    cases s with
    | key => exact tidy_span .key h
    | value => exact tidy_span .value h
    | string => exact tidy_span .string h
    | comment => exact tidy_span .comment h
  token s f hf := by cases s <;> cases hf

theorem Html.writesTidily : WritesTidily Tag.OfCode Html.table where
  chars_eq := rfl
  chars_none s := by cases s <;> rfl
  modest s tr htr := by
    have hrule := Html.isRule_of_mem htr
    exact .of_none hrule.chars_tokens.1 hrule.chars_tokens.2 hrule.place_ne.2
  region s m h := by
    cases s with
    | text => exact Tidy.bare h
    | tag => exact tidy_span .tag h
    | value => exact tidy_span .string h
    | comment => exact tidy_span .comment h
  token s f hf k u hu := by
    cases s with
    | tag =>
      obtain rfl := Option.some.inj hf
      have hk : Marked k.text := by
        rw [hu]
        exact Tidy.escape u
      show Marked (Html.tagWord k)
      unfold Html.tagWord
      split
      · exact hk
      · exact hk.mark .attr
    | _ => cases hf

/-! ## Embedded bodies -/

/-- Replacing the first occurrence of a text either finds none or replaces one. -/
theorem replaceFirst_cases (pat new cs : List Char) :
    replaceFirst pat new cs = cs ∨
      ∃ l r, cs = l ++ pat ++ r ∧ replaceFirst pat new cs = l ++ new ++ r := by
  unfold replaceFirst
  dsimp only
  split
  · exact Or.inl rfl
  · rename_i hne
    obtain ⟨r, hr, hcs⟩ := exists_of_splitAtText fun hnil => hne (List.isEmpty_iff.2 hnil)
    refine Or.inr ⟨(splitAtText pat cs).1, r, ?_, ?_⟩
    · rw [List.append_assoc, hcs]
    · rw [hr, List.drop_left]

/-- A character of which placeholders are made. -/
def Html.InPlaceholder (c : Char) : Prop := c.isDigit = true ∨ c = markerChar

instance (c : Char) : Decidable (Html.InPlaceholder c) :=
  inferInstanceAs (Decidable (c.isDigit = true ∨ c = Html.markerChar))

/-- What a placeholder is made of stands in no tag of marked code. -/
theorem Html.InPlaceholder.literal {c : Char} (h : InPlaceholder c) : Literal Tag.OfCode c := by
  have hfar : ∀ cs : List Char,
      cs.all (fun d => !d.isDigit && d != Html.markerChar) = true → c ∉ cs := by
    intro cs hcs hc
    have hd := List.all_eq_true.1 hcs c hc
    rw [Bool.and_eq_true, Bool.not_eq_true', bne_iff_ne] at hd
    rcases h with h | h
    · rw [hd.1] at h
      cases h
    · exact hd.2 h
  refine ⟨?_, fun n hn => ?_, fun t ht => ?_⟩
  · have hplain := hfar ['<', '>', '&'] (by decide)
    simpa [not_or] using hplain
  · exact hfar _ ((by decide : ∀ n ∈ Atom.entities, (n.toList ++ [';']).all
      (fun d => !d.isDigit && d != Html.markerChar) = true) n hn)
  · rcases ht with r | _
    · refine hfar _ ?_
      cases r <;> decide
    · exact hfar _ (by decide)

theorem Html.inPlaceholder_of_mem {cs : List Char} {i : Nat} :
    ∀ c ∈ placeholder (marker cs) i, InPlaceholder c := by
  intro c hc
  have hmarker : ∀ c ∈ marker cs, InPlaceholder c := fun c hc =>
    Or.inr (List.eq_of_mem_replicate hc)
  simp only [placeholder, List.mem_append] at hc
  rcases hc with (hc | hc) | hc
  · exact hmarker c hc
  · rw [Nat.toString_eq_repr, Nat.toList_repr] at hc
    exact Or.inl (Nat.isDigit_of_mem_toDigits (by decide) (by decide) hc)
  · exact hmarker c hc

theorem Html.placeholder_ne_nil {cs : List Char} {i : Nat} :
    placeholder (marker cs) i ≠ [] := by
  simp [placeholder, marker]

/-- Putting tidy bodies in the place of placeholders keeps markup tidy. -/
theorem tidy_splice (cs : List Char) (i : Nat) {bodies : List (List Char)}
    (hb : ∀ b ∈ bodies, Tidy Tag.OfCode b) {out : List Char} (h : Tidy Tag.OfCode out) :
    Tidy Tag.OfCode (Html.splice (Html.marker cs) i bodies out) := by
  induction bodies generalizing i out with
  | nil => exact h
  | cons b bodies ih =>
    -- a placeholder that is not found leaves the markup as it is
    refine ih _ (fun b' hb' => hb b' (List.mem_cons_of_mem _ hb')) ?_
    rcases replaceFirst_cases (Html.placeholder (Html.marker cs) i) b out with heq | ⟨l, r, ho, heq⟩
    · rw [heq]
      exact h
    · rw [heq]
      rw [ho] at h
      exact Tidy.substitute (fun _ => Tag.OfCode.known)
        (fun c hc => (Html.inPlaceholder_of_mem c hc).literal) Html.placeholder_ne_nil h
        (hb b (List.mem_cons_self ..))

theorem Language.marked_runFlat (l : Language) (code : String) : Marked (l.runFlat code) := by
  unfold Language.runFlat
  split
  · exact (Expression.writesTidily _ _).run (fun _ => Tag.OfCode.known) code
  · exact Css.writesTidily.run (fun _ => Tag.OfCode.known) code
  · exact Yaml.writesTidily.run (fun _ => Tag.OfCode.known) code
  · exact Html.writesTidily.run (fun _ => Tag.OfCode.known) code

/-- **The markup of code is tidy**, under whatever tag it is read. -/
theorem marked_highlight (tag code : String) : Marked (highlight tag code) := by
  unfold highlight
  split
  · rename_i l _
    unfold Language.run
    split
    · have hbodies : ∀ b ∈ (Html.cut code.toList).1.map fun b =>
          ((Language.ofEmbedding b.element).runFlat (String.ofList b.text)).toList,
          Tidy Tag.OfCode b := by
        intro b hb
        obtain ⟨body, -, rfl⟩ := List.mem_map.1 hb
        exact Language.marked_runFlat _ _
      rw [Marked, Html.highlight, String.toList_ofList]
      exact tidy_splice _ 0 hbodies (Html.writesTidily.run (fun _ => Tag.OfCode.known) _)
    · exact l.marked_runFlat code
  · exact Tidy.escape code

end Highlight
end AnswerStream
