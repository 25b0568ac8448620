import AnswerStream.Markup.Inline
import AnswerStream.Markup.Line
import AnswerStream.Scan.Run

/-!
# Blocks

A text is a sequence of lines, and a line that has a shape starts a block or goes
on with one.  Blocks are told apart only where a line starts, by transitions that
consume nothing, so the first character of a line is looked at again inside the
block that it starts.  Shapes are tried in a fixed order, the most specific
first.

## Lines as tokens

Every token is one line, written when its newline is met, except inside a fence,
where the opening line and the whole body are one token.  Text is handed on as it
stands: it is escaped where it is marked up, and only there.

Lines of one paragraph or quote are joined by breaks.  An empty line adds a break
too, but only in the middle of its region.
-/

namespace AnswerStream
namespace Markup

open Text Scan

/-- The shapes that start a block. -/
inductive Shape where
  | fence
  | table
  | heading
  | rule
  | quote
  | ordered
  | unordered
  deriving DecidableEq

namespace Shape

/-- The shapes, the most specific first. -/
def all : List Shape := [fence, table, heading, rule, quote, ordered, unordered]

/-- Whether a line has a shape, given the line after it. -/
def fits (line : List Char) (following : Option (List Char)) : Shape → Bool
  | fence => Line.opensFence line
  | table => Line.isRow line && following.any Line.isSeparator
  | heading => (Line.heading? line).isSome
  | rule => Line.isRule line
  | quote => (Line.quote? line).isSome
  | ordered => (Line.ordered? line).isSome
  | unordered => (Line.unordered? line).isSome

end Shape

namespace Block

/-- The states of a scan over blocks. -/
inductive State where
  /-- Lines without a shape. -/
  | paragraph
  /-- A block of the given shape. -/
  | block (s : Shape)
  deriving DecidableEq

/-- A block of shape `s` starts at the line under the cursor. -/
def opens (s : Shape) (c : Context) : Bool :=
  c.atLineStart && s.fits c.restOfLine c.followingLine

/-- Enter a block at its first line.  A fence takes the whole line with it. -/
def opener (s : Shape) : Transition State :=
  if s = .fence then
    { target := .state (.block s), fires := opens s, measure := some Context.lineRemainder,
      placement := some .carry }
  else { target := .state (.block s), fires := opens s, zeroWidth := true }

/-- The openers of all blocks except the one of shape `current`. -/
def openers (current : Option Shape) : List (Transition State) :=
  (Shape.all.filter fun s => some s ≠ current).map opener

/-- Leave a block at a line that does not go on with it. -/
def fallBack (continues : List Char → Bool) : Transition State where
  target := .state .paragraph
  fires c := c.atLineStart && !continues c.restOfLine
  zeroWidth := true

/-- A line ends and its region goes on. -/
def newline : Transition State where
  target := .stay
  fires c := c.ch == '\n'
  placement := some .drop

/-- A line ends and its region with it. -/
def endOfLine : Transition State where
  target := .state .paragraph
  fires c := c.ch == '\n'
  placement := some .drop

/-- A fence ends at the line under the cursor, which is dropped. -/
def fenceClose : Transition State where
  target := .state .paragraph
  fires c := c.atLineStart && Line.closesFence c.restOfLine
  measure := some Context.lineRemainder
  placement := some .drop

/-! ## Lines as markup -/

/-- A line of text as markup. -/
def inline (text : List Char) : String := Inline.render (String.ofList text)

/-- A line of a region whose lines are joined by breaks; `body` is nothing for a
line without content. -/
def joinedLine (k : Token State) : Option String → String
  | none => if k.fresh || k.target ≠ k.source then "" else "<br>"
  | some body => if k.fresh then body else "<br>" ++ body

/-- A line of a paragraph. -/
def paragraphLine (k : Token State) : String :=
  joinedLine k (if k.text = "" then none else some (Inline.render k.text))

/-- A line of a quote. -/
def quoteLine (k : Token State) : String :=
  if k.text = "" then ""
  else
    let text := (Line.quote? k.text.toList).getD k.text.toList
    joinedLine k (if allBlank text then none else some (inline text))

/-- A heading. -/
def headingLine (k : Token State) : String :=
  match Line.heading? k.text.toList with
  | some (level, text) =>
    let tag := "h" ++ toString level
    "<" ++ tag ++ ">" ++ inline (Line.headingText text) ++ "</" ++ tag ++ ">"
  | none => Inline.render k.text

/-- An item of a list, whose text is what `item?` reads. -/
def itemLine (item? : List Char → Option (List Char)) (k : Token State) : String :=
  if allBlank k.text.toList then ""
  else "<li>" ++ inline ((item? k.text.toList).getD k.text.toList) ++ "</li>"

/-- The cells of a row, each in the tag `cell`. -/
def rowCells (cell : String) (line : List Char) : String :=
  String.join ((Line.cells line).map fun text =>
    "<" ++ cell ++ ">" ++ inline text ++ "</" ++ cell ++ ">")

/-- A row of a table; the first one is its head.  Separators are not shown. -/
def tableLine (k : Token State) : String :=
  let line := trim k.text.toList
  if line.isEmpty || Line.isSeparator line then ""
  else if k.fresh then "<thead><tr>" ++ rowCells "th" line ++ "</tr></thead>"
  else "<tr>" ++ rowCells "td" line ++ "</tr>"

/-! ## Fences as markup -/

/-- A fence: its label and its body. -/
structure Fence where
  /-- The label on the opening line; empty if there is none. -/
  label : String
  /-- The lines between the opening and the closing one. -/
  body : String
  deriving DecidableEq

/-- The text without the newline it ends with. -/
def dropNewline (cs : List Char) : List Char :=
  if cs.getLast? = some '\n' then cs.dropLast else cs

/-- The fence of a token, which starts with the opening line. -/
def Fence.ofToken (text : String) : Fence :=
  let head := text.toList.takeWhile (· ≠ '\n')
  let body := (text.toList.dropWhile (· ≠ '\n')).drop 1
  { label := String.ofList (Line.fenceLabel head), body := String.ofList (dropNewline body) }

/-- The label that is shown. -/
def Fence.shownLabel (f : Fence) : String := if f.label = "" then "text" else f.label

/-- A fence as markup, given how its code is marked up. -/
def Fence.markup (code : String → String → String) (f : Fence) : String :=
  "<div class=\"code-block\"><div class=\"code-header\"><span class=\"code-lang\">" ++
    f.shownLabel ++ "</span><button class=\"copy-code\">Copy</button></div><pre>" ++
    "<code class=\"language-" ++ f.shownLabel ++ "\">" ++ code f.label f.body ++
    "</code></pre></div>"

/-! ## The table -/

/-- The rules of every state, given how fenced code is marked up. -/
def rules (code : String → String → String) : State → Rules State
  | .paragraph =>
    { transitions := openers none ++ [newline]
      tokens := some paragraphLine }
  | .block .heading => { transitions := [endOfLine], tokens := some headingLine }
  | .block .rule => { transitions := [endOfLine], tokens := some fun _ => "<hr>" }
  | .block .quote =>
    .tagged "blockquote"
      (openers (some .quote) ++ [fallBack fun line => (Line.quote? line).isSome, newline])
      (some quoteLine)
  | .block .unordered =>
    .tagged "ul"
      (openers (some .unordered) ++
        [fallBack fun line => (Line.unordered? line).isSome, newline])
      (some (itemLine Line.unordered?))
  | .block .ordered =>
    .tagged "ol"
      (openers (some .ordered) ++ [fallBack fun line => (Line.ordered? line).isSome, newline])
      (some (itemLine Line.ordered?))
  | .block .table =>
    .tagged "table" (openers (some .table) ++ [fallBack Line.isRow, newline]) (some tableLine)
  | .block .fence =>
    { transitions := [fenceClose]
      tokens := some fun k => (Fence.ofToken k.text).markup code }

/-- The rule table of blocks, given how fenced code is marked up. -/
def table (code : String → String → String) : Table State where
  name := "markdown-block"
  initial := .paragraph
  states := .paragraph :: Shape.all.map .block
  rules := rules code
  chars := verbatim

/-- The fences of a text, in order. -/
def fences (text : String) : List Fence :=
  ((table fun _ body => body).tokens text).filterMap fun k =>
    if k.source = .block .fence then some (Fence.ofToken k.text) else none

end Block
end Markup
end AnswerStream
