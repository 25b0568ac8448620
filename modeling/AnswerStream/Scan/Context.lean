/-!
# What a rule sees

A scan stands on one character of its text.  A rule may look at that character,
at what lies before and after it, and at the delimiter that opened the region it
stands in.  The text before the cursor is kept with the nearest character first,
so that looking back is looking at the front of a list.

## Lines

A line ends before its newline, and the newline belongs to the line it ends.  So
a cursor on a newline has nothing left of its line, and the line after it starts
with the next character.
-/

namespace AnswerStream
namespace Scan

/-- A cursor on the character `ch` of a text. -/
structure Context where
  /-- The text before the cursor, nearest character first. -/
  before : List Char
  /-- The character under the cursor. -/
  ch : Char
  /-- The text after the cursor. -/
  after : List Char
  /-- The delimiter that opened the innermost region. -/
  pair : Option Char := none

namespace Context

variable (c : Context)

/-- The character before the cursor. -/
def prev : Option Char := c.before.head?

/-- The character after the cursor. -/
def next : Option Char := c.after.head?

/-- The character `n` places past the next one. -/
def peek (n : Nat) : Option Char := c.after[n]?

@[simp] theorem peek_zero : c.peek 0 = c.next := by
  cases h : c.after <;> simp [peek, next, h]

/-- Whether the text from the cursor on starts with `pat`. -/
def startsWith (pat : List Char) : Bool := pat.isPrefixOf (c.ch :: c.after)

/-- Whether the cursor stands where a line starts. -/
def atLineStart : Bool :=
  match c.prev with
  | none => true
  | some p => p == '\n'

/-- The current line from the cursor on. -/
def restOfLine : List Char := (c.ch :: c.after).takeWhile (· ≠ '\n')

/-- The line after the current one, if there is one. -/
def followingLine : Option (List Char) :=
  match (c.ch :: c.after).dropWhile (· ≠ '\n') with
  | [] => none
  | _ :: rest => some (rest.takeWhile (· ≠ '\n'))

/-- The current line up to the cursor. -/
def linePrefix : List Char := (c.before.takeWhile (· ≠ '\n')).reverse

/-- How many characters follow the cursor on its line. -/
def lineRemainder : Nat := c.restOfLine.length - 1

/-- Whether the character under the cursor is the delimiter that opened the
region. -/
def atPair : Bool := c.pair == some c.ch

@[simp] theorem startsWith_nil : c.startsWith [] = true := by
  simp [startsWith]

/-- A newline has nothing left of its line. -/
theorem restOfLine_of_newline (h : c.ch = '\n') : c.restOfLine = [] := by
  simp [restOfLine, h]

/-- The line after a newline is what follows it. -/
theorem followingLine_of_newline (h : c.ch = '\n') :
    c.followingLine = some (c.after.takeWhile (· ≠ '\n')) := by
  simp [followingLine, h]

end Context

/-- The cursor on the character at place `i` of a text. -/
def Context.at? (text : List Char) (i : Nat) : Option Context :=
  match text.drop i with
  | [] => none
  | ch :: after => some { before := (text.take i).reverse, ch, after }

end Scan
end AnswerStream
