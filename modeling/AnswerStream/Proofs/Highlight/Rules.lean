import AnswerStream.Highlight.Css
import AnswerStream.Highlight.Expression
import AnswerStream.Highlight.Html
import AnswerStream.Highlight.Yaml

/-!
# The rules of the highlighters

The rule tables are lists of transitions, state by state.  Here the transitions of each table
are cases of a predicate, so that what holds of all of them is proved by one case for each
(`Expression.isRule_of_mem`, `Css.isRule_of_mem`, `Yaml.isRule_of_mem`, `Html.isRule_of_mem`).
-/

namespace AnswerStream
namespace Highlight

open Text Scan

namespace Expression

variable {p : Profile}

/-- What begins outside constructs. -/
inductive IsOpener (p : Profile) : Transition State → Prop
  | lineComment {marker : String} (h : marker ∈ p.lineComments) :
    IsOpener p (opener .lineComment marker)
  | blockComment {b : String × String} (h : b ∈ p.blockComment) :
    IsOpener p (opener .blockComment b.1)
  | string :
    IsOpener p { target := .state .string, fires := fun c => p.quotes.contains c.ch,
                 pair := .trigger }
  | regex : IsOpener p { target := .state .regex, fires := opensRegex }

/-- The transitions of the states. -/
inductive IsRule (p : Profile) : State → Transition State → Prop
  | opener {tr : Transition State} (h : IsOpener p tr) : IsRule p .normal tr
  | other : IsRule p .normal { target := .stay, fires := fun c => !isWordChar c.ch }
  | escaped {s : State} (h : s = .string ∨ s = .regex) : IsRule p s escapedPair
  | quote : IsRule p .string { target := .pop, fires := Context.atPair }
  | lineEnd : IsRule p .lineComment
      { target := .pop, fires := fun c => c.ch == '\n', placement := some .between }
  | close : IsRule p .blockComment
      { target := .pop, fires := fun c => c.startsWith (blockEnd p).toList,
        extra := (blockEnd p).length - 1 }
  | slash : IsRule p .regex { target := .pop, fires := fun c => c.ch == '/' }
  | cut : IsRule p .regex
      { target := .pop, fires := fun c => c.ch == '\n', placement := some .between }

/-- In a regular expression, a backslash takes the next character along, a slash ends it, and so
does a newline. -/
theorem firing_of_regex {name : String} {q : Progress State}
    (h : q.current (table p name) = .regex) (before after : List Char) (c : Char) :
    q.firing (table p name) before c after =
      if c = '\\' then some escapedPair
      else if c = '/' then some { target := .pop, fires := fun x => x.ch == '/' }
      else if c = '\n' then
        some { target := .pop, fires := fun x => x.ch == '\n', placement := some .between }
      else none := by
  rw [Progress.firing, h]
  by_cases hesc : c = '\\'
  · subst hesc
    rfl
  · by_cases hslash : c = '/'
    · subst hslash
      rfl
    · by_cases hline : c = '\n'
      · subst hline
        rfl
      · simp [table, rules, Rules.span, Progress.look, escapedPair, hesc, hslash, hline]

theorem isOpener_of_mem {tr : Transition State} (h : tr ∈ openers p) : IsOpener p tr := by
  simp only [openers, List.mem_append, List.mem_map, Option.mem_toList, List.mem_singleton] at h
  rcases h with ((⟨m, hm, rfl⟩ | ⟨b, hb, rfl⟩) | rfl) | h
  · exact .lineComment hm
  · exact .blockComment hb
  · exact .string
  · split at h
    · rw [List.mem_singleton.1 h]
      exact .regex
    · cases h

theorem isRule_of_mem {s : State} {tr : Transition State} (h : tr ∈ (rules p s).transitions) :
    IsRule p s tr := by
  cases s with
  | normal =>
    rcases List.mem_append.1 h with h | h
    · exact .opener (isOpener_of_mem h)
    · rw [List.mem_singleton.1 h]
      exact .other
  | string =>
    simp only [rules, Rules.span, List.mem_cons, List.not_mem_nil, or_false] at h
    rcases h with rfl | rfl
    · exact .escaped (Or.inl rfl)
    · exact .quote
  | lineComment =>
    rw [List.mem_singleton.1 h]
    exact .lineEnd
  | blockComment =>
    rw [List.mem_singleton.1 h]
    exact .close
  | regex =>
    simp only [rules, Rules.span, List.mem_cons, List.not_mem_nil, or_false] at h
    rcases h with rfl | rfl | rfl
    · exact .escaped (Or.inr rfl)
    · exact .slash
    · exact .cut

/-- Every rule consumes the character at which it fires. -/
theorem IsRule.zeroWidth_eq {st : State} {tr : Transition State} (h : IsRule p st tr) :
    tr.zeroWidth = false := by
  rcases h with ⟨⟨⟩⟩ | _ <;> rfl

/-- No rule opens a region inside another. -/
theorem IsRule.nested_eq {st : State} {tr : Transition State} (h : IsRule p st tr) :
    tr.nested = false := by
  rcases h with ⟨⟨⟩⟩ | _ <;> rfl

/-- No rule has a way of its own to write anything. -/
theorem IsRule.chars_tokens {st : State} {tr : Transition State} (h : IsRule p st tr) :
    tr.chars = none ∧ tr.tokens = none := by
  rcases h with ⟨⟨⟩⟩ | _ <;> exact ⟨rfl, rfl⟩

/-- What a rule consumes is written where it stands. -/
theorem IsRule.place_ne {st : State} {tr : Transition State} (h : IsRule p st tr) :
    tr.place ≠ .drop ∧ tr.place ≠ .carry := by
  rcases h with ⟨⟨⟩⟩ | _ <;> simp [Transition.place, Expression.opener, escapedPair]

/-- Only a slash before which an operand is missing opens a regular expression. -/
theorem IsRule.opens_regex {st : State} {tr : Transition State} (h : IsRule p st tr)
    (htarget : tr.target = .state .regex) :
    tr = { target := .state .regex, fires := opensRegex } := by
  rcases h with ⟨⟨⟩⟩ | _
  all_goals first | rfl | cases htarget

end Expression

namespace Css

/-- The transitions of the states. -/
inductive IsRule : State → Transition State → Prop
  | comment {s : State} (h : s = .selector ∨ s = .property ∨ s = .value) : IsRule s comment
  | string {s : State} (h : s = .selector ∨ s = .value) : IsRule s string
  | openBlock : IsRule .selector (between .property '\x7b')
  | colon : IsRule .property (between .value ':')
  | semicolon : IsRule .value (between .property ';')
  | closeBlock {s : State} (h : s = .property ∨ s = .value) :
    IsRule s (between .selector '\x7d')
  | escaped : IsRule .string
      { target := .stay, fires := fun c => c.ch == '\\', extra := 1, placement := some .closing }
  | quote : IsRule .string { target := .pop, fires := Context.atPair }
  | commentEnd : IsRule .comment
      { target := .pop, fires := fun c => c.startsWith ['*', '/'], extra := 1 }

theorem isRule_of_mem {s : State} {tr : Transition State} (h : tr ∈ (rules s).transitions) :
    IsRule s tr := by
  cases s with
  | selector =>
    simp only [rules, Rules.span, List.mem_cons, List.not_mem_nil, or_false] at h
    rcases h with rfl | rfl | rfl
    · exact .comment (by decide)
    · exact .string (by decide)
    · exact .openBlock
  | property =>
    simp only [rules, Rules.span, List.mem_cons, List.not_mem_nil, or_false] at h
    rcases h with rfl | rfl | rfl
    · exact .comment (by decide)
    · exact .colon
    · exact .closeBlock (by decide)
  | value =>
    simp only [rules, Rules.span, List.mem_cons, List.not_mem_nil, or_false] at h
    rcases h with rfl | rfl | rfl | rfl
    · exact .comment (by decide)
    · exact .string (by decide)
    · exact .semicolon
    · exact .closeBlock (by decide)
  | string =>
    simp only [rules, Rules.span, List.mem_cons, List.not_mem_nil, or_false] at h
    rcases h with rfl | rfl
    · exact .escaped
    · exact .quote
  | comment =>
    rw [List.mem_singleton.1 h]
    exact .commentEnd

/-- No rule has a way of its own to write anything. -/
theorem IsRule.chars_tokens {s : State} {tr : Transition State} (h : IsRule s tr) :
    tr.chars = none ∧ tr.tokens = none := by
  cases h <;> exact ⟨rfl, rfl⟩

/-- What a rule consumes is written where it stands. -/
theorem IsRule.place_ne {s : State} {tr : Transition State} (h : IsRule s tr) :
    tr.place ≠ .drop ∧ tr.place ≠ .carry := by
  cases h <;> simp [Transition.place, Css.comment, Css.string, between]

/-- No rule looks further than to the character after the next. -/
theorem IsRule.extra_le {s : State} {tr : Transition State} (h : IsRule s tr) :
    tr.measure = none ∧ tr.extra ≤ 1 := by
  cases h <;> exact ⟨rfl, by decide⟩

end Css

namespace Html

/-- The transitions of the states. -/
inductive IsRule : State → Transition State → Prop
  | openComment : IsRule .text
      { target := .state .comment, fires := fun c => c.startsWith ['<', '!', '-', '-'],
        extra := 3 }
  | openTag : IsRule .text { target := .state .tag, fires := startsTag }
  | openValue : IsRule .tag
      { target := .state .value, fires := fun c => c.ch == '"' || c.ch == '\x27', nested := true,
        pair := .trigger }
  | closeTag : IsRule .tag
      { target := .state .text, fires := fun c => c.ch == '>', placement := some .closing }
  | between : IsRule .tag { target := .stay, fires := fun c => isBlank c.ch || c.ch == '=' }
  | closeValue : IsRule .value { target := .pop, fires := Context.atPair }
  | closeComment : IsRule .comment
      { target := .state .text, fires := fun c => c.startsWith ['-', '-', '>'], extra := 2,
        placement := some .closing }

theorem isRule_of_mem {s : State} {tr : Transition State} (h : tr ∈ (rules s).transitions) :
    IsRule s tr := by
  cases s with
  | text =>
    simp only [rules, List.mem_cons, List.not_mem_nil, or_false] at h
    rcases h with rfl | rfl
    · exact .openComment
    · exact .openTag
  | tag =>
    simp only [rules, Rules.span, List.mem_cons, List.not_mem_nil, or_false] at h
    rcases h with rfl | rfl | rfl
    · exact .openValue
    · exact .closeTag
    · exact .between
  | value =>
    rw [List.mem_singleton.1 h]
    exact .closeValue
  | comment =>
    rw [List.mem_singleton.1 h]
    exact .closeComment

/-- No rule has a way of its own to write anything. -/
theorem IsRule.chars_tokens {s : State} {tr : Transition State} (h : IsRule s tr) :
    tr.chars = none ∧ tr.tokens = none := by
  cases h <;> exact ⟨rfl, rfl⟩

/-- What a rule consumes is written where it stands. -/
theorem IsRule.place_ne {s : State} {tr : Transition State} (h : IsRule s tr) :
    tr.place ≠ .drop ∧ tr.place ≠ .carry := by
  cases h <;> simp [Transition.place]

end Html

namespace Yaml

/-- The transitions of the states. -/
inductive IsRule : State → Transition State → Prop
  | comment {s : State} (h : s ≠ .string) : IsRule s comment
  | string {s : State} : IsRule s string
  | entry : IsRule .key entry
  | colon : IsRule .key
      { target := .state .value, fires := fun c => c.ch == ':' && nextIsBlank c,
        placement := some .between }
  | newline {s : State} (h : s ≠ .string) : IsRule s newline
  | escaped : IsRule .string
      { target := .stay, fires := fun c => c.ch == '\\' && c.pair == some '"', extra := 1,
        placement := some .closing }
  | quote : IsRule .string { target := .pop, fires := Context.atPair }

theorem isRule_of_mem {s : State} {tr : Transition State} (h : tr ∈ (rules s).transitions) :
    IsRule s tr := by
  cases s with
  | key =>
    simp only [rules, Rules.span, List.mem_cons, List.not_mem_nil, or_false] at h
    rcases h with rfl | rfl | rfl | rfl | rfl
    · exact .comment (by decide)
    · exact .entry
    · exact .string
    · exact .colon
    · exact .newline (by decide)
  | value =>
    simp only [rules, Rules.span, List.mem_cons, List.not_mem_nil, or_false] at h
    rcases h with rfl | rfl | rfl
    · exact .newline (by decide)
    · exact .comment (by decide)
    · exact .string
  | string =>
    simp only [rules, Rules.span, List.mem_cons, List.not_mem_nil, or_false] at h
    rcases h with rfl | rfl
    · exact .escaped
    · exact .quote
  | comment =>
    rw [List.mem_singleton.1 h]
    exact .newline (by decide)

end Yaml

end Highlight
end AnswerStream
