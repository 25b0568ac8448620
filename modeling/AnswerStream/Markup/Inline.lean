import AnswerStream.Markup.Link
import AnswerStream.Scan.Run

/-!
# Markup inside a line

Backticks enclose code, double tildes deleted text, double stars or low lines
strong text, and single ones emphasis.  The delimiters are dropped and the spans
nest.  A span that is never closed ends with the text, and one with nothing in it
leaves no trace.

## Which delimiters count

Emphasis starts only after white space or at the start, and never before white
space, so names written with low lines stay whole.  Strong text inside emphasis
and emphasis inside strong text are states of their own, in which neither starts
again: there each delimiter can only close what it opened.  Nothing starts inside
code.
-/

namespace AnswerStream
namespace Markup
namespace Inline

open Text Scan

/-- The states of a scan inside a line. -/
inductive State where
  | text
  | code
  | strike
  | strong
  | em
  | strongInEm
  | emInStrong
  deriving DecidableEq

/-- Whether a character delimits emphasis and strong text. -/
def isEmphasisChar (c : Char) : Bool := c == '*' || c == '_'

/-- Whether strong text starts here. -/
def opensStrong (c : Context) : Bool :=
  isEmphasisChar c.ch && c.next == some c.ch && !isBlankAt (c.peek 1)

/-- Whether emphasis starts here. -/
def opensEm (c : Context) : Bool :=
  isEmphasisChar c.ch && isBlankAt c.prev && !isBlankAt c.next

/-- Whether strong text ends here. -/
def closesStrong (c : Context) : Bool := c.pair == some c.ch && c.next == some c.ch

/-- Code starts. -/
def codeOpen : Transition State where
  target := .state .code
  fires c := c.ch == '\x60'
  nested := true
  placement := some .drop

/-- Code ends. -/
def codeClose : Transition State where
  target := .pop
  fires c := c.ch == '\x60'
  placement := some .drop

/-- Deleted text starts. -/
def strikeOpen : Transition State where
  target := .state .strike
  fires c := c.startsWith ['~', '~'] && !isBlankAt (c.peek 1)
  extra := 1
  nested := true
  placement := some .drop

/-- Deleted text ends. -/
def strikeClose : Transition State where
  target := .pop
  fires c := c.startsWith ['~', '~']
  extra := 1
  placement := some .drop

/-- Strong text starts, in the state `s`. -/
def strongOpen (s : State) : Transition State where
  target := .state s
  fires := opensStrong
  extra := 1
  nested := true
  pair := .trigger
  placement := some .drop

/-- Strong text ends. -/
def strongClose : Transition State where
  target := .pop
  fires := closesStrong
  extra := 1
  placement := some .drop

/-- Emphasis starts, in the state `s`. -/
def emOpen (s : State) : Transition State where
  target := .state s
  fires := opensEm
  nested := true
  pair := .trigger
  placement := some .drop

/-- Emphasis ends. -/
def emClose : Transition State where
  target := .pop
  fires := Context.atPair
  placement := some .drop

/-- The rules of every state. -/
def rules : State → Rules State
  | .text => { transitions := [codeOpen, strikeOpen, strongOpen .strong, emOpen .em] }
  | .code => .tagged "code" [codeClose]
  | .strike => .tagged "del" [codeOpen, strikeClose, strongOpen .strong, emOpen .em]
  | .strong => .tagged "strong" [codeOpen, strongClose, strikeOpen, emOpen .emInStrong]
  | .em => .tagged "em" [codeOpen, strongOpen .strongInEm, emClose, strikeOpen]
  | .strongInEm => .tagged "strong" [codeOpen, strongClose, strikeOpen]
  | .emInStrong => .tagged "em" [codeOpen, emClose, strikeOpen]

/-- The rule table inside a line. -/
def table : Table State where
  name := "markdown-inline"
  initial := .text
  states := [.text, .code, .strike, .strong, .em, .strongInEm, .emInStrong]
  rules := rules

/-- The markup of a text inside a line. -/
def render (text : String) : String := String.ofList (resolveLinks (table.run text).toList)

end Inline
end Markup
end AnswerStream
