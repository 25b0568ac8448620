import AnswerStream.Proofs.Highlight.Rules
import AnswerStream.Proofs.Scan.Forest

/-!
# Regions that nest

If the texts around the regions of a table are tags, what the table writes is properly
nested, whatever its rules look for and wherever they lead.  A region that was never closed
is closed at the end, and one that holds nothing leaves no tag behind.

`Nested` is a grammar of markup: text without left brackets, tags of void elements, and
elements with their content between an opening tag and the closing tag of the same name.
Which elements are void is left open.
-/

namespace AnswerStream
namespace Scan

open Text

/-! ## Nested markup -/

/-- The name of an element: what stands in a tag before white space or a slash. -/
structure IsName (n : List Char) : Prop where
  ne_nil : n ≠ []
  plain : ∀ c ∈ n, isBlank c = false ∧ c ≠ '/' ∧ c ≠ '<' ∧ c ≠ '>'

/-- An opening tag of the element `n`, which may have attributes. -/
def IsOpening (n tag : List Char) : Prop :=
  IsName n ∧ ∃ attributes, tag = '<' :: (n ++ attributes ++ ['>']) ∧ '>' ∉ attributes ∧
    ∀ c ∈ attributes.head?, isBlank c = true ∨ c = '/'

/-- The closing tag of the element `n`. -/
def closingTag (n : List Char) : List Char := '<' :: '/' :: (n ++ ['>'])

/-- Properly nested markup, in which the elements named in `void` have no closing tag. -/
inductive Nested (void : List Char → Prop) : List Char → Prop
  | nil : Nested void []
  | char {c : Char} {m : List Char} (h : c ≠ '<') (hm : Nested void m) : Nested void (c :: m)
  | void {n tag m : List Char} (hn : void n) (ht : IsOpening n tag) (hm : Nested void m) :
    Nested void (tag ++ m)
  | element {n tag inside m : List Char} (hn : ¬ void n) (ht : IsOpening n tag)
    (hi : Nested void inside) (hm : Nested void m) :
    Nested void (tag ++ inside ++ closingTag n ++ m)

namespace Nested

variable {void : List Char → Prop}

theorem append {m n : List Char} (hm : Nested void m) (hn : Nested void n) :
    Nested void (m ++ n) := by
  induction hm with
  | nil => exact hn
  | char h _ ih => exact .char h ih
  | void hv ht _ ih =>
    rw [List.append_assoc]
    exact .void hv ht ih
  | element hv ht hi _ _ ih =>
    rw [List.append_assoc]
    exact .element hv ht hi ih

/-- Text without left brackets is nested. -/
theorem text {m : List Char} (h : '<' ∉ m) : Nested void m := by
  induction m with
  | nil => exact .nil
  | cons c m ih =>
    have hc : c ≠ '<' := by
      rintro rfl
      exact h (List.mem_cons_self ..)
    exact .char hc (ih fun hm => h (List.mem_cons_of_mem _ hm))

/-- Nested markup inside an element. -/
theorem wrap {n tag m : List Char} (hn : ¬ void n) (ht : IsOpening n tag) (hm : Nested void m) :
    Nested void (tag ++ m ++ closingTag n) := by
  have hend := Nested.element hn ht hm .nil
  rwa [List.append_nil] at hend

end Nested

/-! ## Tables whose regions are elements -/

variable {σ : Type}

/-- A table whose regions are elements or have no text around them, which writes no tag for
a character and nested markup for a token. -/
structure Table.Balanced (void : List Char → Prop) (t : Table σ) : Prop where
  /-- The texts around the regions of a state are empty, or an opening and its closing tag. -/
  wrapper : ∀ s, ((t.rules s).entry = "" ∧ (t.rules s).exit = "") ∨
    ∃ n, ¬ void n ∧ IsOpening n (t.rules s).entry.toList ∧
      (t.rules s).exit.toList = closingTag n
  /-- No character is rewritten to a tag. -/
  chars : ∀ c, '<' ∉ (t.chars c).toList
  /-- Nor is one in a way of a state. -/
  state_chars : ∀ s f, (t.rules s).chars = some f → ∀ c, '<' ∉ (f c).toList
  /-- Nor is one in a way of a transition. -/
  own_chars : ∀ s, ∀ tr ∈ (t.rules s).transitions, ∀ f, tr.chars = some f →
    ∀ c, '<' ∉ (f c).toList
  /-- A state that has a way to write tokens writes nested markup. -/
  state_tokens : ∀ s f, (t.rules s).tokens = some f → ∀ k : Token σ, '<' ∉ k.text.toList →
    Nested void (f k).toList
  /-- So does a transition that has one. -/
  own_tokens : ∀ s, ∀ tr ∈ (t.rules s).transitions, ∀ f, tr.tokens = some f → ∀ k : Token σ,
    '<' ∉ k.text.toList → Nested void (f k).toList

/-- What a forest comes to, one region at a time: a region whose content is empty adds
nothing, any other adds its entry text, its content and its exit text. -/
inductive Forest.Writes (t : Table σ) : Forest σ → String → Prop
  | empty : Writes t .empty ""
  | token {before : Forest σ} {m : String} (own : Option (Token σ → String)) (k : Token σ)
    (hb : Writes t before m) : Writes t (.token before own k) (m ++ Progress.written t own k)
  | taken {before : Forest σ} {m : String} (s : σ) (own : Option (Char → String))
    (cs : List Char) (hb : Writes t before m) :
    Writes t (.taken before s own cs) (m ++ Progress.rewritten t s own cs)
  | nothing {before inside : Forest σ} {m : String} (s : σ) (hb : Writes t before m)
    (hi : Writes t inside "") : Writes t (.region before s inside) m
  | wrapped {before inside : Forest σ} {m content : String} (s : σ) (hb : Writes t before m)
    (hi : Writes t inside content) (hc : content ≠ "") :
    Writes t (.region before s inside)
      (m ++ ((t.rules s).entry ++ content ++ (t.rules s).exit))

/-- A forest comes to its markup. -/
theorem Forest.writes_markup (t : Table σ) (f : Forest σ) : f.Writes t (f.markup t) := by
  induction f with
  | empty => exact .empty
  | token before own k ih => exact .token own k ih
  | taken before s own cs ih => exact .taken s own cs ih
  | region before s inside ihb ihi =>
    unfold markup Table.wrap
    split
    · rename_i hc
      dsimp only at hc
      rw [hc] at ihi
      rw [String.append_empty]
      exact .nothing s ihb ihi
    · exact .wrapped s ihb ihi ‹_›

namespace Table.Balanced

variable {void : List Char → Prop} {t : Table σ}

/-- Rewritten text holds no tag. -/
theorem not_mem_rewritten (h : t.Balanced void) (s : σ) {own : Option (Char → String)}
    (ho : ∀ f, own = some f → ∀ c, '<' ∉ (f c).toList) (cs : List Char) :
    '<' ∉ (Progress.rewritten t s own cs).toList := by
  have hone : ∀ c, '<' ∉ (((own <|> (t.rules s).chars).getD t.chars) c).toList := by
    cases hown : own with
    | some f => exact ho f hown
    | none =>
      cases hs : (t.rules s).chars with
      | some f => simpa [hs] using h.state_chars s f hs
      | none => simpa [hs] using h.chars
  rw [Progress.rewritten, toList_rewrite]
  intro hmem
  obtain ⟨c, -, hc⟩ := List.mem_flatMap.1 hmem
  exact hone c hc

/-- The content of a region stays nested with the texts around it. -/
theorem nested_region (h : t.Balanced void) (s : σ) {content : String}
    (hc : Nested void content.toList) :
    Nested void ((t.rules s).entry ++ content ++ (t.rules s).exit).toList := by
  rw [String.toList_append, String.toList_append]
  rcases h.wrapper s with ⟨he, hx⟩ | ⟨n, hn, ho, hx⟩
  · simpa [he, hx] using hc
  · rw [hx]
    exact hc.wrap hn ho

variable [DecidableEq σ]

/-- The text of a token holds no tag. -/
theorem not_mem_token (h : t.Balanced void) (text : String) :
    ∀ k ∈ t.tokens text, '<' ∉ k.text.toList := by
  refine t.forall_tokens_text (Q := fun m => '<' ∉ m.toList) (by simp) ?_ ?_ ?_ text
  · intro a b ha hb
    rw [String.toList_append, List.mem_append]
    exact fun hm => hm.elim ha hb
  · intro s c
    exact h.not_mem_rewritten s (fun f hf => absurd hf (by simp)) [c]
  · intro s tr htr _ cs
    exact h.not_mem_rewritten s (h.own_chars s tr htr) cs

/-- **The runs of a balanced table are nested**, and each region adds to them nothing at all,
or its content, which is not empty, between the texts around it. -/
theorem nested_run (h : t.Balanced void) (text : String) :
    Nested void (t.run text).toList ∧
      ∃ f : Forest σ, f.IsShape t text ∧ f.Writes t (t.run text) := by
  constructor
  · refine t.run_of (P := fun m => Nested void m.toList) text .nil ?_ ?_ ?_ ?_
    · intro a b ha hb
      rw [String.toList_append]
      exact ha.append hb
    · intro s content hc
      exact h.nested_region s hc
    · intro k hk own hown
      have htext := h.not_mem_token text k hk
      have hf : ∀ f, (own <|> (t.rules k.source).tokens) = some f → Nested void (f k).toList := by
        intro f hf
        rcases hown with rfl | ⟨tr, htr, rfl⟩
        · exact h.state_tokens _ f hf k htext
        · cases ht : tr.tokens with
          | some g =>
            rw [ht] at hf
            exact Option.some.inj hf ▸ h.own_tokens _ tr htr g ht k htext
          | none =>
            rw [ht] at hf
            exact h.state_tokens _ f hf k htext
      unfold Progress.written
      split
      · exact hf _ ‹_›
      · exact .text htext
    · intro s tr htr cs _
      exact .text (h.not_mem_rewritten s (h.own_chars s tr htr) cs)
  · obtain ⟨f, hf⟩ := t.exists_shape text
    have hm : f.markup t = t.run text := hf.markup_eq t.wrapper
    refine ⟨f, hf, ?_⟩
    rw [← hm]
    exact f.writes_markup t

end Table.Balanced

/-! ## Documents -/

open Highlight

/-- A `span` of a role is an element. -/
theorem isOpening_span (r : Role) :
    IsOpening ['s', 'p', 'a', 'n'] ("<span class=\"" ++ r.cls ++ "\">").toList := by
  have hcls : '>' ∉ r.cls.toList := by cases r <;> decide
  refine ⟨⟨by simp, by simp [isBlank]⟩, " class=\"".toList ++ r.cls.toList ++ ['"'], ?_, ?_, ?_⟩
  · simp
  · simp [hcls]
  · simp [isBlank]

/-- The table of documents is balanced, also if every element needs a closing tag. -/
theorem Table.Balanced.html : Html.table.Balanced fun _ => False where
  wrapper s := by
    cases s with
    | text => exact Or.inl ⟨rfl, rfl⟩
    | tag => exact Or.inr ⟨_, id, isOpening_span .tag, by decide⟩
    | value => exact Or.inr ⟨_, id, isOpening_span .string, by decide⟩
    | comment => exact Or.inr ⟨_, id, isOpening_span .comment, by decide⟩
  chars c := by
    have hc : '<' ∉ (escapeChar c).toList := by
      simpa using (not_bracket_mem_escape (String.singleton c)).1
    exact hc
  state_chars s f hf := by cases s <;> cases hf
  own_chars s tr htr f hf := by
    rw [(Html.isRule_of_mem htr).chars_tokens.1] at hf
    cases hf
  state_tokens s f hf k hk := by
    cases s with
    | tag =>
      obtain rfl := Option.some.inj hf
      unfold Html.tagWord
      split
      · exact .text hk
      · have hmark := Nested.wrap id (isOpening_span .attr) (.text hk : Nested (fun _ => False) _)
        simpa [Role.mark_eq, closingTag] using hmark
    | _ => cases hf
  own_tokens s tr htr f hf := by
    rw [(Html.isRule_of_mem htr).chars_tokens.2] at hf
    cases hf

/-- A document that ends inside the value of an attribute. -/
theorem Table.Balanced.nested_run_html : Html.table.Balanced (fun _ => False) ∧
    Nested (fun _ => False) (Html.table.run "<p><a b='c").toList ∧
    ∃ f : Forest Html.State, f.IsShape Html.table "<p><a b='c" ∧
      f.Writes Html.table (Html.table.run "<p><a b='c") :=
  ⟨html, html.nested_run "<p><a b='c"⟩

end Scan
end AnswerStream
