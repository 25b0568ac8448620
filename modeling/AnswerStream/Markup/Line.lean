import AnswerStream.Text.Blank
import AnswerStream.Text.Digit
import AnswerStream.Text.Search

/-!
# The shapes of a line

What a line starts depends on its first characters after some indentation.  Most
shapes carry a text: what is left of the line once the mark of the shape and the
white space after it are taken off.
-/

namespace AnswerStream
namespace Markup
namespace Line

open Text

/-- The line without its indentation, if that is at most three spaces. -/
def unindent? (line : List Char) : Option (List Char) :=
  let rest := line.dropWhile (· == ' ')
  if line.length - rest.length ≤ 3 then some rest else none

/-- The text after a mark, which white space has to follow. -/
def afterMark? : List Char → Option (List Char)
  | [] => none
  | c :: cs => if isBlank c then some (trimStart cs) else none

/-! ## Fences -/

/-- Whether the line opens a fence: it starts with three backticks. -/
def opensFence (line : List Char) : Bool :=
  ['\x60', '\x60', '\x60'].isPrefixOf (trimStart line)

/-- Whether the line closes a fence: it is three backticks or more and nothing
else. -/
def closesFence (line : List Char) : Bool :=
  3 ≤ (trim line).length && (trim line).all (· == '\x60')

/-- Whether a character may stand in the label of a fence. -/
def inLabel (c : Char) : Bool :=
  c.isAlphanum || c == '+' || c == '#' || c == '-' || c == '_' || c == '.'

/-- The label of the line that opens a fence: the first word after the backticks,
without the characters that a label cannot hold. -/
def fenceLabel (line : List Char) : List Char :=
  let word := trimStart ((trim line).dropWhile (· == '\x60'))
  (word.takeWhile fun c => !isBlank c).filter inLabel

/-! ## Tables -/

/-- Whether the line is a row of a table. -/
def isRow (line : List Char) : Bool := line.contains '|'

/-- Whether a character may stand in a separator. -/
def inSeparator (c : Char) : Bool := c == '|' || c == '-' || c == ':' || c == ' ' || c == '\t'

/-- Whether the line separates the head of a table from its body. -/
def isSeparator (line : List Char) : Bool :=
  (trim line).contains '|' && (trim line).contains '-' && (trim line).all inSeparator

/-- A text without the bar it starts with. -/
def dropBar : List Char → List Char
  | '|' :: cs => cs
  | cs => cs

/-- The cells of a row.  Bars at its ends delimit no cell. -/
def cells (line : List Char) : List (List Char) :=
  let inner := (dropBar (dropBar (trim line)).reverse).reverse
  (splitOn '|' inner).map trim

/-! ## Headings, rules and quotes -/

/-- The level and the text of a heading: one to six number signs and white
space. -/
def heading? (line : List Char) : Option (Nat × List Char) := do
  let rest ← unindent? line
  let marks := rest.takeWhile (· == '#')
  let text ← afterMark? (rest.dropWhile (· == '#'))
  if 1 ≤ marks.length ∧ marks.length ≤ 6 then some (marks.length, text) else none

/-- The text of a heading without the number signs that close it. -/
def headingText (text : List Char) : List Char :=
  trimEnd (dropEndWhile (· == '#') (trimEnd text))

/-- Whether the line is a rule: three or more of one mark, with blanks between. -/
def isRule (line : List Char) : Bool :=
  match unindent? line with
  | some (mark :: rest) =>
    (mark == '-' || mark == '*' || mark == '_') &&
      rest.all (fun c => c == ' ' || c == '\t' || c == mark) && 2 ≤ rest.count mark
  | _ => false

/-- The text of a quote, less one character of white space after the mark. -/
def quote? (line : List Char) : Option (List Char) :=
  match unindent? line with
  | some ('>' :: c :: rest) => some (if isBlank c then rest else c :: rest)
  | some ['>'] => some []
  | _ => none

/-! ## List items -/

/-- The text of an item of an unordered list. -/
def unordered? (line : List Char) : Option (List Char) :=
  match trimStart line with
  | mark :: rest => if mark = '-' ∨ mark = '*' ∨ mark = '+' then afterMark? rest else none
  | [] => none

/-- The text of an item of an ordered list: up to nine digits and a point or a
parenthesis. -/
def ordered? (line : List Char) : Option (List Char) :=
  let rest := trimStart line
  let digits := rest.takeWhile isDecimalDigit
  match rest.dropWhile isDecimalDigit with
  | mark :: rest =>
    if 1 ≤ digits.length ∧ digits.length ≤ 9 ∧ (mark = '.' ∨ mark = ')') then afterMark? rest
    else none
  | [] => none

end Line
end Markup
end AnswerStream
