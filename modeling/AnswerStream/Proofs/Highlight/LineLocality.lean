import AnswerStream.Highlight.Language
import AnswerStream.Proofs.Highlight.LexerRun
import AnswerStream.Proofs.Highlight.Rules
import AnswerStream.Proofs.Scan.LineByLine

/-!
# Code is marked line by line

What stands on one line of code has no influence on the next, unless a string, a comment between
brackets or a regular expression is open at its end.  So code may be cut at any other newline,
and its markup is that of the two parts (`highlight_append_line`).

The tables for words and for settings read line by line in the sense of `Table.LineWise`.  For
that each of their rules has to be asked two things.

* Looking back: an operand is missing at the beginning of a line as it is at the beginning of the
  code, a comment or a quoted scalar may start there, and only white space stands before a dash.
* Looking ahead: no marker and no regular expression goes on over the end of a line, and a colon
  or a dash before it has nothing after it.

A word is a property if a dot stands before it, and neither a newline nor the beginning of the
code is a dot.
-/

namespace AnswerStream
namespace Highlight

open Text Scan

/-! ## Words, strings and comments -/

namespace Expression

/-- The states between an opening and a closing delimiter: of strings, of comments between
brackets and of regular expressions. -/
def State.Enclosed (s : State) : Prop := s = .string ∨ s = .blockComment ∨ s = .regex

instance : DecidablePred State.Enclosed := fun s =>
  inferInstanceAs (Decidable (s = .string ∨ s = .blockComment ∨ s = .regex))

/-- Every marker of a notation stands on one line, and no string is quoted by newlines. -/
structure MarkersInLine (p : Profile) : Prop extends MarkersNonempty p where
  /-- What starts a line comment. -/
  line_inLine : ∀ marker ∈ p.lineComments, '\n' ∉ marker.toList
  /-- What starts and what ends a block comment. -/
  block_inLine : ∀ b ∈ p.blockComment, '\n' ∉ b.1.toList ∧ '\n' ∉ b.2.toList
  /-- What quotes a string. -/
  quotes_inLine : '\n' ∉ p.quotes

variable {p : Profile}

/-- What ends a block comment stands on one line. -/
theorem MarkersInLine.blockEnd_inLine (h : MarkersInLine p) : '\n' ∉ (blockEnd p).toList := by
  unfold blockEnd
  split
  · rename_i hblock
    exact (h.block_inLine _ hblock).2
  · decide

/-- A newline before a word makes it no property. -/
theorem classify_sameInLine (keywords : List String) (anyCase : Bool) {a a' : Option Char}
    (h : SameInLine a a') (word : String) :
    classify keywords anyCase a' word = classify keywords anyCase a word := by
  have hedge : roleOf keywords anyCase (some '\n') word = roleOf keywords anyCase none word := by
    unfold roleOf
    rw [if_neg (by decide : some '\n' ≠ some '.'), if_neg (by decide : none ≠ some '.')]
  refine h.congr (f := fun a => classify keywords anyCase a word) ?_
  simp only [classify, hedge]

/-! ### Slashes -/

/-- An operand is missing at the beginning of a line. -/
theorem expectsOperand_newline (before xs : List Char) :
    expectsOperand (before ++ '\n' :: xs) = expectsOperand before := by
  induction before with
  | nil => rfl
  | cons c before ih =>
    by_cases hc : (c == ' ' || c == '\t') = true
    · have hskip : ∀ cs, expectsOperand (c :: cs) = expectsOperand cs := fun cs => by
        simp only [expectsOperand, List.dropWhile_cons, if_pos hc]
      rw [List.cons_append, hskip, hskip, ih]
    · have hstop : ∀ cs, expectsOperand (c :: cs) = (c == '\n' || operators.contains c) :=
        fun cs => by simp only [expectsOperand, List.dropWhile_cons, if_neg hc]
      rw [List.cons_append, hstop, hstop]

/-- No slash is looked for on the next line. -/
theorem slashFollows_newline (cs ys : List Char) :
    slashFollows (cs ++ '\n' :: ys) = slashFollows cs := by
  induction cs using slashFollows.induct with
  | case1 | case2 | case3 | case4 | case5 => rfl
  | case6 d cs hd ih =>
    rw [List.cons_append, List.cons_append, slashFollows, slashFollows]
    · exact ih
    · exact hd
    · exact hd
  | case7 d cs hnewline hslash hend hcut hescape ih =>
    have hd : d ≠ '\\' := by
      intro hd
      cases cs with
      | nil => exact hend hd rfl
      | cons e cs => exact hescape e cs hd rfl
    have hother : ∀ es, slashFollows (d :: es) = slashFollows es := fun es => by
      rw [slashFollows]
      · exact hnewline
      · exact hslash
      · exact fun h _ => hd h
      · exact fun _ h _ => hd h
      · exact fun _ _ h _ => hd h
    rw [List.cons_append, hother, hother, ih]

theorem opensRegex_before (c : Context) (xs : List Char) :
    opensRegex { c with before := c.before ++ '\n' :: xs } = opensRegex c := by
  unfold opensRegex
  rw [expectsOperand_newline]
  rfl

theorem opensRegex_after (c : Context) (ys : List Char) :
    opensRegex { c with after := c.after ++ '\n' :: ys } = opensRegex c := by
  obtain ⟨before, ch, after, pair⟩ := c
  unfold opensRegex
  rw [slashFollows_newline]
  cases after with
  | nil => simp [slashFollows]
  | cons a after => rfl

/-! ### The rules -/

/-- A rule does not see over the end of a line. -/
theorem IsRule.lineRule (hp : MarkersInLine p) {s : State} {tr : Transition State}
    (h : IsRule p s tr) : LineRule State.Enclosed s tr where
  consumes := by rcases h with ⟨⟨⟩⟩ | _ <;> rfl
  tokens := by rcases h with ⟨⟨⟩⟩ | _ <;> rfl
  measure := by rcases h with ⟨⟨⟩⟩ | _ <;> rfl
  fires_before c xs := by
    cases h with
    | opener h =>
      cases h with
      | regex => exact opensRegex_before c xs
      | _ => rfl
    | _ => rfl
  fires_after c ys := by
    cases h with
    | opener h =>
      cases h with
      | lineComment hm => exact c.startsWith_newline (hp.line_inLine _ hm) ys
      | blockComment hb => exact c.startsWith_newline (hp.block_inLine _ hb).1 ys
      | string => rfl
      | regex => exact opensRegex_after c ys
    | close => exact c.startsWith_newline hp.blockEnd_inLine ys
    | _ => rfl
  reach c hc := by
    cases h with
    | opener h =>
      cases h with
      | lineComment _ | blockComment _ => exact Or.inl (Context.length_le_of_startsWith hc)
      | _ => exact Or.inl (Nat.zero_le _)
    | escaped hs => exact Or.inr ⟨rfl, hs.elim Or.inl fun h => Or.inr (Or.inr h)⟩
    | close => exact Or.inl (Context.length_le_of_startsWith hc)
    | _ => exact Or.inl (Nat.zero_le _)
  layers q hq := by
    cases h with
    | opener h =>
      have houtside : ¬ State.normal.Enclosed := by decide
      rcases h <;> exact houtside
    | _ => cases hq
  pair q hq := by
    cases h with
    | opener h =>
      cases h with
      | string => exact Or.inl (by cases hq; decide)
      | _ => exact Or.inr rfl
    | _ => cases hq

/-- Nothing begins at a newline. -/
theorem IsOpener.fires_newline (hp : MarkersInLine p) {tr : Transition State}
    (h : IsOpener p tr) {c : Context} (hc : c.ch = '\n') : tr.fires c = false := by
  have hmarker : ∀ marker : String, marker ≠ "" → '\n' ∉ marker.toList →
      c.startsWith marker.toList = false := by
    intro marker hne hline
    cases hm : marker.toList with
    | nil => exact absurd (String.toList_injective hm) hne
    | cons d ds =>
      rw [hm, List.mem_cons, not_or] at hline
      simp [Context.startsWith, hc, List.isPrefixOf, Ne.symm hline.1]
  cases h with
  | lineComment hm => exact hmarker _ (hp.lineComments _ hm) (hp.line_inLine _ hm)
  | blockComment hb => exact hmarker _ (hp.blockComment _ hb).1 (hp.block_inLine _ hb).1
  | string => simpa [hc] using hp.quotes_inLine
  | regex => simp [opensRegex, hc]

/-- **The table for words reads line by line**, outside what is enclosed by delimiters. -/
theorem MarkersInLine.lineWise (hp : MarkersInLine p) (name : String) :
    (table p name).LineWise State.Enclosed where
  rule s tr htr := (isRule_of_mem htr).lineRule hp
  written k before fresh hk := by
    obtain ⟨text, source, target, before', fresh'⟩ := k
    cases source with
    | normal =>
      show classify (keywords p) p.caseInsensitive before text =
        classify (keywords p) p.caseInsensitive before' text
      rcases hk with rfl | hk
      · rw [classify_empty, classify_empty]
      · exact classify_sameInLine _ _ hk text
    | _ => rfl
  newline s hs c hc := by
    cases s with
    | normal =>
      refine ⟨{ target := .stay, fires := fun c => !isWordChar c.ch }, ?_, ?_⟩
      · have hnone : (openers p).find? (fun tr => tr.fires c) = none :=
          List.find?_eq_none.2 fun tr htr => by
            rw [(isOpener_of_mem htr).fires_newline hp hc]
            exact Bool.false_ne_true
        have hword : isWordChar '\n' = false := by decide
        simp [table, rules, List.find?_append, hnone, hc, hword]
      · exact ⟨rfl, rfl, rfl, Or.inl ⟨rfl, rfl, rfl, rfl⟩⟩
    | lineComment =>
      refine ⟨_, List.find?_cons_of_pos (by simp [hc]), ?_⟩
      exact ⟨rfl, rfl, rfl, Or.inr (Or.inl rfl)⟩
    | string | blockComment | regex => exact absurd (by decide) hs

end Expression

/-! ## Settings -/

namespace Yaml

/-- A quoted scalar may start where a line does. -/
theorem startsString_before (c : Context) (xs : List Char) :
    startsString { c with before := c.before ++ '\n' :: xs } = startsString c := by
  unfold startsString
  rcases c.sameInLine_prev xs with hprev | ⟨hnone, hprev⟩
  · rw [hprev]
  · rw [hprev, hnone]
    rfl

/-- A line that ends has nothing after its last character. -/
theorem nextIsBlank_after (c : Context) (ys : List Char) :
    nextIsBlank { c with after := c.after ++ '\n' :: ys } = nextIsBlank c := by
  unfold nextIsBlank
  rcases c.sameInLine_next ys with hnext | ⟨hnone, hnext⟩
  · rw [hnext]
  · rw [hnext, hnone]
    rfl

/-- A rule does not see over the end of a line. -/
theorem IsRule.lineRule {s : State} {tr : Transition State} (h : IsRule s tr) :
    LineRule (· = .string) s tr where
  consumes := by cases h <;> rfl
  tokens := by cases h <;> rfl
  measure := by cases h <;> rfl
  fires_before c xs := by
    cases h with
    | comment _ =>
      exact (c.sameInLine_prev xs).congr (f := fun a => c.ch == '#' && isBlankAt a) rfl
    | string => exact startsString_before c xs
    | entry =>
      show startsEntry _ = startsEntry c
      unfold startsEntry
      rw [c.linePrefix_newline]
      rfl
    | _ => rfl
  fires_after c ys := by
    cases h with
    | entry =>
      show startsEntry _ = startsEntry c
      unfold startsEntry
      rw [nextIsBlank_after]
      rfl
    | colon =>
      show (c.ch == ':' && nextIsBlank _) = _
      rw [nextIsBlank_after]
    | _ => rfl
  reach c hc := by
    cases h with
    | escaped => exact Or.inr ⟨rfl, rfl⟩
    | _ => exact Or.inl (Nat.zero_le _)
  layers q hq := by
    cases h with
    | comment h => exact h
    | newline h => exact h
    | colon => exact fun h : State.key = .string => nomatch h
    | _ => cases hq <;> rfl
  pair q hq := by
    cases h with
    | string => exact Or.inl (by cases hq; rfl)
    | _ => exact Or.inr rfl

/-- **The table for settings reads line by line**, outside quoted scalars. -/
theorem lineWise : table.LineWise (· = .string) where
  rule s tr htr := (isRule_of_mem htr).lineRule
  written k before fresh hk := by
    obtain ⟨text, source, target, before', fresh'⟩ := k
    cases source <;> rfl
  newline s hs c hc := by
    have hends : ∀ s, EndsLine table s newline := fun s =>
      ⟨rfl, rfl, by cases s <;> decide, Or.inr (Or.inr ⟨rfl, rfl, rfl⟩)⟩
    refine ⟨newline, ?_, hends s⟩
    cases s with
    | string => exact absurd rfl hs
    | _ =>
      simp [table, rules, Rules.span, comment, entry, string, newline, startsComment, startsEntry,
        startsString, hc]

end Yaml

/-! ## Languages -/

/-- Code ends where no delimiter is missing: in a language of words outside strings, comments
between brackets and regular expressions, and in settings outside quoted scalars. -/
inductive Language.EndsOutside (l : Language) (code : String) : Prop
  | words {p : Profile} (hl : l.grammar = .expression p)
    (hs : ¬ ((Expression.table p l.name).endState code).Enclosed)
  | settings (hl : l.grammar = .settings) (hs : Yaml.table.endState code ≠ .string)

/-- The markers of every language stand on one line. -/
theorem Language.markersInLine {l : Language} {p : Profile} (h : l.grammar = .expression p) :
    Expression.MarkersInLine p := by
  cases l <;> cases h <;>
    exact ⟨⟨by decide, by decide⟩, by decide, by decide, by decide⟩

/-- **Code is marked line by line.**  A newline outside strings, comments between brackets,
regular expressions and quoted scalars cuts the markup as it cuts the code. -/
theorem highlight_append_line {tag : String} {l : Language} (hl : Language.ofTag? tag = some l)
    {a : String} (ha : l.EndsOutside a) (b : String) :
    highlight tag (a ++ "\n" ++ b) = highlight tag a ++ "\n" ++ highlight tag b := by
  have hrun : ∀ code, highlight tag code = l.run code := fun code => by rw [highlight, hl]
  rw [hrun, hrun, hrun]
  cases ha with
  | words hg hs =>
    have hflat : ∀ code, l.run code = (Expression.table _ l.name).run code := fun code => by
      rw [Language.run, Language.runFlat, hg]
    rw [hflat, hflat, hflat]
    exact ((Language.markersInLine hg).lineWise l.name).run_append hs b
  | settings hg hs =>
    have hflat : ∀ code, l.run code = Yaml.table.run code := fun code => by
      rw [Language.run, Language.runFlat, hg]
    rw [hflat, hflat, hflat]
    exact Yaml.lineWise.run_append hs b

/-- A regular expression after a comment, and a key after a value. -/
theorem highlight_append_line_comment :
    Language.ofTag? "js" = some .javaScript ∧ Language.EndsOutside .javaScript "x // c" ∧
    highlight "js" ("x // c" ++ "\n" ++ "/b/") =
      "<span class=\"hl-variable\">x</span> <span class=\"hl-comment\">// c</span>\n" ++
        "<span class=\"hl-regex\">/b/</span>" ∧
    Language.ofTag? "yml" = some .yaml ∧ Language.EndsOutside .yaml "k: 'v'" ∧
    highlight "yml" ("k: 'v'" ++ "\n" ++ "- k") =
      highlight "yml" "k: 'v'" ++ "\n" ++ highlight "yml" "- k" := by
  have hjs : Language.ofTag? "js" = some .javaScript := by decide +kernel
  have hword : Language.EndsOutside .javaScript "x // c" := .words rfl (by decide +kernel)
  have hyml : Language.ofTag? "yml" = some .yaml := by decide +kernel
  have hvalue : Language.EndsOutside .yaml "k: 'v'" := .settings rfl (by decide +kernel)
  refine ⟨hjs, hword, (highlight_append_line hjs hword "/b/").trans ?_, hyml, hvalue,
    highlight_append_line hyml hvalue "- k"⟩
  decide +kernel

/-- A string that is open at the end of its line goes on in the next. -/
example : highlight "js" ("\"a" ++ "\n" ++ "b\"") ≠
    highlight "js" "\"a" ++ "\n" ++ highlight "js" "b\"" := by decide +kernel

end Highlight
end AnswerStream
