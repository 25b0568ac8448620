import AnswerStream.Highlight.Role
import AnswerStream.Scan.Run
import AnswerStream.Text.Alphanumeric

/-!
# Code made of words, strings and comments

Most programming notations have the same parts: words, some of them keywords;
strings between quotes; comments to the end of the line or between brackets; and
in some a regular expression between slashes.  A `Profile` says what these look
like in one notation, and `table` turns it into a rule table.

## Words

A word is a maximal run of word characters.  It is a keyword if the profile says
so, else a number if it starts with a digit, else a name, which is a property
when a dot stands before it.  A word with characters outside ASCII that is no
keyword stays unmarked.

## Slashes

A slash starts a regular expression where no operand stands before it and an
unescaped slash follows on the same line.  So a division is never taken for one,
and a regular expression always ends where it was seen to end.
-/

namespace AnswerStream
namespace Highlight

open Text Scan

/-- What distinguishes one notation from another. -/
structure Profile where
  /-- The words that are keywords. -/
  keywords : List String
  /-- What starts a comment that runs to the end of the line. -/
  lineComments : List String := ["//"]
  /-- What starts and what ends a comment that may span lines. -/
  blockComment : Option (String × String) := some ("/*", "*/")
  /-- The characters that quote a string. -/
  quotes : List Char := ['"', '\x27']
  /-- Whether slashes may enclose a regular expression. -/
  regexLiterals : Bool := false
  /-- Whether keywords are recognised in any case. -/
  caseInsensitive : Bool := false

namespace Expression

/-- The states of a scan over such code. -/
inductive State where
  | normal
  | string
  | lineComment
  | blockComment
  | regex
  deriving DecidableEq

/-- The names of the states. -/
def State.label : State → String
  | normal => "normal"
  | string => "string"
  | lineComment => "line-comment"
  | blockComment => "block-comment"
  | regex => "regex"

/-! ## Words -/

/-- Whether a character can start a name. -/
def isNameStart (c : Char) : Bool := c == '$' || c == '_' || c.isAlpha

/-- Whether a character can follow in a name. -/
def isNamePart (c : Char) : Bool := c == '$' || c == '_' || c.isAlphanum

/-- Whether a character is part of a word.  Letters of every script are, so no
word is split inside. -/
def isWordChar (c : Char) : Bool := isNamePart c || (0x80 ≤ c.toNat && isAlphanumeric c)

/-- Whether a word is a name. -/
def isName : List Char → Bool
  | [] => false
  | c :: cs => isNameStart c && cs.all isNamePart

/-- Whether a word is a number: a digit, and then digits, letters and low lines. -/
def isNumber : List Char → Bool
  | [] => false
  | c :: cs => c.isDigit && (c :: cs).all fun d => d.isAlphanum || d == '_'

/-- A text with its ASCII letters in lower case. -/
def lowerAscii (s : String) : String := String.ofList (s.toList.map Char.toLower)

/-- What a word is, given the character before it.  Some words are nothing in
particular. -/
def roleOf (keywords : List String) (anyCase : Bool) (before : Option Char) (word : String) :
    Option Role :=
  if keywords.contains (if anyCase then lowerAscii word else word) then some .keyword
  else if isNumber word.toList then some .number
  else if isName word.toList then some (if before = some '.' then .property else .name)
  else none

/-- A word with its mark. -/
def classify (keywords : List String) (anyCase : Bool) (before : Option Char) (word : String) :
    String :=
  if word = "" then ""
  else
    match roleOf keywords anyCase before word with
    | some r => r.mark word
    | none => word

@[simp] theorem classify_empty (keywords : List String) (anyCase : Bool) (before : Option Char) :
    classify keywords anyCase before "" = "" := rfl

/-! ## Regular expressions -/

/-- The characters after which a slash cannot be a division. -/
def operators : List Char :=
  ['(', ',', '=', ':', '[', '!', '&', '|', '?', '\x7b', '\x7d', ';', '+', '-', '*', '%', '<',
   '>', '~', '^']

/-- Whether an unescaped slash follows before the line ends. -/
def slashFollows : List Char → Bool
  | [] => false
  | '\n' :: _ => false
  | '/' :: _ => true
  | '\\' :: [] => false
  | '\\' :: '\n' :: _ => false
  | '\\' :: _ :: cs => slashFollows cs
  | _ :: cs => slashFollows cs

/-- Whether an operand is missing where the text before, nearest character first,
ends. -/
def expectsOperand (before : List Char) : Bool :=
  match before.dropWhile fun c => c == ' ' || c == '\t' with
  | [] => true
  | c :: _ => c == '\n' || operators.contains c

/-- Whether a slash here starts a regular expression. -/
def opensRegex (c : Context) : Bool :=
  c.ch == '/' &&
    (match c.next with
      | none => false
      | some n => n != '/' && n != '*') &&
    expectsOperand c.before && slashFollows c.after

/-! ## The table -/

variable (p : Profile)

/-- Enter `s` at the text `marker` and take the whole of it. -/
def opener (s : State) (marker : String) : Transition State where
  target := .state s
  fires c := c.startsWith marker.toList
  extra := marker.length - 1

/-- Take a backslash together with the character after it. -/
def escapedPair : Transition State where
  target := .stay
  fires c := c.ch == '\\'
  extra := 1
  placement := some .closing

/-- The text that ends a block comment. -/
def blockEnd : String :=
  match p.blockComment with
  | some (_, close) => close
  | none => "*/"

/-- The keywords of a profile in the case in which they are compared. -/
def keywords : List String :=
  if p.caseInsensitive then p.keywords.map lowerAscii else p.keywords

/-- What can begin in the normal state, in order of preference. -/
def openers : List (Transition State) :=
  p.lineComments.map (opener .lineComment) ++
    (p.blockComment.toList.map fun b => opener .blockComment b.1) ++
    [{ target := .state .string, fires := fun c => p.quotes.contains c.ch, pair := .trigger }] ++
    (if p.regexLiterals then [{ target := .state .regex, fires := opensRegex }] else [])

/-- The rules of every state. -/
def rules : State → Rules State
  | .normal =>
    { transitions := openers p ++ [{ target := .stay, fires := fun c => !isWordChar c.ch }]
      tokens := some fun k => classify (keywords p) p.caseInsensitive k.before k.text }
  | .string =>
    .span Role.string.cls [escapedPair, { target := .pop, fires := Context.atPair }]
  | .lineComment =>
    .span Role.comment.cls
      [{ target := .pop, fires := fun c => c.ch == '\n', placement := some .between }]
  | .blockComment =>
    .span Role.comment.cls
      [{ target := .pop, fires := fun c => c.startsWith (blockEnd p).toList,
         extra := (blockEnd p).length - 1 }]
  | .regex =>
    .span Role.regex.cls
      [escapedPair, { target := .pop, fires := fun c => c.ch == '/' },
       { target := .pop, fires := fun c => c.ch == '\n', placement := some .between }]

/-- The rule table of a profile. -/
def table (name : String) : Table State where
  name := name
  initial := .normal
  states := [.normal, .string, .lineComment, .blockComment, .regex]
  rules := rules p

end Expression

end Highlight
end AnswerStream
