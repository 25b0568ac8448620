import AnswerStream.Highlight.Expression

/-!
# Code taken piece by piece

A lexer for code made of words, strings and comments: at each place it takes the longest
piece that the notation allows there, and goes on after it.  It knows nothing of states, and
looks ahead as far as it needs to.

## What begins where

A comment or a string begins where its opening stands, and a regular expression where a slash
cannot be a division.  The first of these that fits is taken, in the order of `opening?`.
Otherwise a word is taken, which ends before the next such place, or else one character.

## The end of a line

A line comment ends before its newline.  Whether something may begin at that newline is a
matter of its own, because a notation may quote with newlines.  The lexer takes it as a
parameter: if line comments `join` their newline, it is a character like others.
-/

namespace AnswerStream
namespace Highlight
namespace Expression

open Text Scan

/-! ## Constructs -/

/-- What can begin in code other than a word. -/
inductive Construct where
  /-- A comment to the end of the line. -/
  | lineComment
  /-- A comment to the text `close`. -/
  | blockComment (close : List Char)
  /-- A string to the next `quote`. -/
  | string (quote : Char)
  /-- A regular expression to the next slash. -/
  | regex
  deriving DecidableEq

/-- How many characters there are through the first `close`; all if there is none. -/
def throughText (close : List Char) : List Char → Nat
  | [] => 0
  | c :: cs => if close.isPrefixOf (c :: cs) then close.length else throughText close cs + 1

/-- How many characters there are through the first `close` that no backslash takes with it;
all if there is none. -/
def throughUnescaped (close : Char) : List Char → Nat
  | [] => 0
  | '\\' :: [] => 1
  | '\\' :: _ :: cs => throughUnescaped close cs + 2
  | c :: cs => if c = close then 1 else throughUnescaped close cs + 1

theorem throughUnescaped_of_ne {close c : Char} (h : c ≠ '\\') (cs : List Char) :
    throughUnescaped close (c :: cs) = if c = close then 1 else throughUnescaped close cs + 1 := by
  rw [throughUnescaped]
  · rintro rfl
    exact absurd rfl h
  · rintro _ _ rfl
    exact absurd rfl h

namespace Construct

/-- What a construct is marked as. -/
def role : Construct → Role
  | lineComment | blockComment _ => .comment
  | string _ => .string
  | regex => .regex

/-- How many characters of the text after its opening belong to a construct. -/
def extent : Construct → List Char → Nat
  | lineComment, text => (text.takeWhile (· ≠ '\n')).length
  | blockComment close, text => throughText close text
  | string quote, text => throughUnescaped quote text
  | regex, text => throughUnescaped '/' text

/-- How many characters after its first belong to a construct with an opening of `n`. -/
def reach (k : Construct) (n : Nat) (after : List Char) : Nat :=
  n - 1 + k.extent (after.drop (n - 1))

end Construct

variable (p : Profile)

/-- What begins at the character `c`, and how long its opening is. -/
def opening? (before : List Char) (c : Char) (after : List Char) : Option (Construct × Nat) :=
  ((p.lineComments.find? fun marker => marker.toList.isPrefixOf (c :: after)).map
    fun marker => (.lineComment, marker.length)).or <|
  ((p.blockComment.filter fun b => b.1.toList.isPrefixOf (c :: after)).map
    fun b => (.blockComment b.2.toList, b.1.length)).or <|
  (if p.quotes.contains c then some (.string c, 1) else none).or <|
  if p.regexLiterals && opensRegex { before, ch := c, after } then some (.regex, 1) else none

/-- How far a word goes on: over word characters at which nothing else begins. -/
def wordTail : (before text : List Char) → List Char
  | _, [] => []
  | before, c :: cs =>
    if isWordChar c && (opening? p before c cs).isNone then c :: wordTail (c :: before) cs else []

/-! ## The lexer -/

/-- A piece of code. -/
inductive Lexeme where
  /-- A comment, a string or a regular expression. -/
  | marked (r : Role) (text : List Char)
  /-- A word and the character before it. -/
  | word (before : Option Char) (text : List Char)
  /-- Any other character. -/
  | char (c : Char)

/-- The markup of a piece. -/
def Lexeme.markup : Lexeme → String
  | marked r text => r.mark (rewrite escapeChar text)
  | word before text => classify (keywords p) p.caseInsensitive before (String.ofList text)
  | char c => escapeChar c

/-- The pieces of a text.  If a line comment that joins its newline has just `ended`, a
newline is a character. -/
def lexemes (joins : Bool) : (ended : Bool) → (before text : List Char) → List Lexeme
  | _, _, [] => []
  | ended, before, c :: cs =>
    if ended && c == '\n' then .char c :: lexemes joins false (c :: before) cs
    else
      match opening? p before c cs with
      | some (k, n) =>
        .marked k.role (c :: cs.take (k.reach n cs)) ::
          lexemes joins (joins && k = .lineComment)
            ((c :: cs.take (k.reach n cs)).reverse ++ before) (cs.drop (k.reach n cs))
      | none =>
        if isWordChar c then
          .word before.head? (c :: wordTail p (c :: before) cs) ::
            lexemes joins false ((c :: wordTail p (c :: before) cs).reverse ++ before)
              (cs.drop (wordTail p (c :: before) cs).length)
        else .char c :: lexemes joins false (c :: before) cs
termination_by _ _ text => text.length
decreasing_by all_goals simp only [List.length_drop, List.length_cons]; omega

/-- The markup of pieces. -/
def markup (ls : List Lexeme) : String := String.join (ls.map (Lexeme.markup p))

/-- The markup of code, piece by piece. -/
def lexed (joins : Bool) (code : String) : String := markup p (lexemes p joins false [] code.toList)

/-! ## Small facts -/

@[simp] theorem markup_nil : markup p [] = "" := rfl

@[simp] theorem markup_cons (l : Lexeme) (ls : List Lexeme) :
    markup p (l :: ls) = l.markup p ++ markup p ls := by
  simp [markup]

variable {p}

theorem extent_lineComment_newline (cs : List Char) :
    Construct.lineComment.extent ('\n' :: cs) = 0 := rfl

theorem extent_lineComment_cons {c : Char} (hc : c ≠ '\n') (cs : List Char) :
    Construct.lineComment.extent (c :: cs) = Construct.lineComment.extent cs + 1 := by
  simp [Construct.extent, hc]

/-- A line comment ends before a newline, or with the text. -/
theorem head?_drop_lineComment (text : List Char) :
    ∀ c ∈ (text.drop (Construct.lineComment.extent text)).head?, c = '\n' := by
  induction text with
  | nil => simp
  | cons c cs ih =>
    by_cases hc : c = '\n'
    · simp [hc, extent_lineComment_newline]
    · rwa [extent_lineComment_cons hc, List.drop_succ_cons]

/-- What begins is the first of the four that fits. -/
theorem opening?_cases {before after : List Char} {c : Char} {k : Construct} {n : Nat}
    (h : opening? p before c after = some (k, n)) :
    (∃ marker, (p.lineComments.find? fun marker => marker.toList.isPrefixOf (c :: after)) =
      some marker ∧ k = .lineComment ∧ n = marker.length) ∨
    ((p.lineComments.find? fun marker => marker.toList.isPrefixOf (c :: after)) = none ∧
      ((∃ b, (p.blockComment.filter fun b => b.1.toList.isPrefixOf (c :: after)) = some b ∧
        k = .blockComment b.2.toList ∧ n = b.1.length) ∨
      ((p.blockComment.filter fun b => b.1.toList.isPrefixOf (c :: after)) = none ∧
        ((p.quotes.contains c = true ∧ k = .string c ∧ n = 1) ∨
        (p.quotes.contains c ≠ true ∧
          (p.regexLiterals && opensRegex { before, ch := c, after }) = true ∧
          k = .regex ∧ n = 1))))) := by
  simp only [opening?, Option.or_eq_some_iff, Option.map_eq_some_iff, Option.map_eq_none_iff,
    Option.ite_none_right_eq_some, ite_eq_right_iff, reduceCtorEq, imp_false, Option.some.injEq,
    Prod.mk.injEq] at h
  simpa only [eq_comm, ne_eq] using h

/-- A block comment runs to the text that the notation says. -/
theorem opening?_blockComment {before after close : List Char} {c : Char} {n : Nat}
    (h : opening? p before c after = some (.blockComment close, n)) :
    ∃ b ∈ p.blockComment, close = b.2.toList := by
  obtain ⟨_, _, hk, -⟩ | ⟨-, ⟨b, hb, hk, -⟩ | ⟨-, ⟨-, hk, -⟩ | ⟨-, -, hk, -⟩⟩⟩ := opening?_cases h
  · cases hk
  · exact ⟨b, (Option.filter_eq_some_iff.1 hb).1, Construct.blockComment.inj hk⟩
  · cases hk
  · cases hk

/-- A regular expression begins before a slash that can end it. -/
theorem opening?_regex {before after : List Char} {c : Char} {n : Nat}
    (h : opening? p before c after = some (.regex, n)) :
    n = 1 ∧ slashFollows after = true := by
  obtain ⟨_, _, hk, -⟩ | ⟨-, ⟨b, hb, hk, -⟩ | ⟨-, ⟨-, hk, -⟩ | ⟨-, hopens, -, hn⟩⟩⟩ :=
    opening?_cases h
  · cases hk
  · cases hk
  · cases hk
  · simp only [opensRegex, Bool.and_eq_true] at hopens
    exact ⟨hn, hopens.2.2⟩

/-- A word goes on over the beginning of the text. -/
theorem wordTail_isPrefix (before text : List Char) : wordTail p before text <+: text := by
  induction text generalizing before with
  | nil => exact List.nil_prefix
  | cons c cs ih =>
    rw [wordTail]
    split
    · exact (List.prefix_cons_inj c).2 (ih _)
    · exact List.nil_prefix

theorem take_wordTail (before text : List Char) :
    text.take (wordTail p before text).length = wordTail p before text :=
  (List.prefix_iff_eq_take.1 (wordTail_isPrefix before text)).symm

/-- A word ends where it goes on no more. -/
theorem wordTail_drop (before text : List Char) :
    wordTail p ((wordTail p before text).reverse ++ before)
      (text.drop (wordTail p before text).length) = [] := by
  induction text generalizing before with
  | nil => rfl
  | cons c cs ih =>
    by_cases h : (isWordChar c && (opening? p before c cs).isNone) = true
    · simpa [wordTail, h] using ih (c :: before)
    · simp [wordTail, h]

/-- A newline is no part of a word. -/
theorem isWordChar_newline : isWordChar '\n' = false := by decide

/-- If nothing begins at a newline, it makes no difference whether line comments join
theirs. -/
theorem lexemes_eq_of_newline (h : ∀ before after, opening? p before '\n' after = none)
    (joins ended : Bool) (before text : List Char) :
    lexemes p joins ended before text = lexemes p false false before text := by
  induction ended, before, text using lexemes.induct p joins with
  | case1 => simp only [lexemes]
  | case2 ended before c cs hend ih =>
    have hc : c = '\n' := by simp_all
    subst hc
    rw [lexemes, if_pos hend, ih, lexemes]
    simp [h, isWordChar_newline]
  | case3 ended before c cs hend k n hopen ih =>
    rw [lexemes, lexemes]
    simp only [hend, hopen, Bool.false_and, Bool.false_eq_true, if_false] at ih ⊢
    rw [ih]
  | case4 ended before c cs hend hopen hword ih =>
    rw [lexemes, lexemes]
    simp only [hend, hopen, hword, Bool.false_and, Bool.false_eq_true, if_false, if_true] at ih ⊢
    rw [ih]
  | case5 ended before c cs hend hopen hword ih =>
    rw [lexemes, lexemes]
    simp only [hend, hopen, hword, Bool.false_and, Bool.false_eq_true, if_false] at ih ⊢
    rw [ih]

end Expression
end Highlight
end AnswerStream
