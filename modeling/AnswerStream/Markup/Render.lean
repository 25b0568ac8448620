import AnswerStream.Highlight.Registry
import AnswerStream.Markup.Block

/-!
# Rendering an answer

An answer is rendered as a whole every time: while it streams in, all of it so far
is rendered again for each new part.  Line ends are unified and newlines at the
end dropped before the blocks are scanned.

While an answer streams, a cursor stands at its end.  The white space and the
breaks before the cursor are dropped, so that it stands after the last thing
written, and code is left plain until the answer is complete.
-/

namespace AnswerStream
namespace Markup

open Text

/-- The cursor at the end of an answer that is still streaming. -/
def typingCursor : String := "<span class=\"typing-cursor\"></span>"

/-- How an answer is rendered. -/
structure Options where
  /-- Whether the cursor is shown. -/
  typingCursor : Bool
  /-- Whether fenced code is marked up. -/
  highlightCode : Bool
  deriving DecidableEq

namespace Options

/-- While parts are still arriving. -/
def streaming : Options := { typingCursor := true, highlightCode := false }

/-- Once the answer is complete. -/
def final : Options := { typingCursor := false, highlightCode := true }

/-- How fenced code with a label is marked up. -/
def code (o : Options) (label body : String) : String :=
  if o.highlightCode then Highlight.highlight label body else escape body

end Options

/-- A text whose lines end in a newline alone. -/
def unifyLineEnds : List Char → List Char
  | '\r' :: '\n' :: cs => '\n' :: unifyLineEnds cs
  | c :: cs => c :: unifyLineEnds cs
  | [] => []

/-- A text as its blocks are scanned. -/
def prepare (text : String) : String :=
  String.ofList (dropEndWhile (· == '\n') (unifyLineEnds text.toList))

/-- Markup, the last character first, without the white space and the breaks it
ends with. -/
def dropBreaks : List Char → List Char
  | '>' :: 'r' :: 'b' :: '<' :: cs => dropBreaks cs
  | c :: cs => if isBlank c then dropBreaks cs else c :: cs
  | [] => []

/-- Markup with the cursor at its end. -/
def withCursor (markup : String) : String :=
  String.ofList (dropBreaks markup.toList.reverse).reverse ++ typingCursor

/-- The markup of an answer. -/
def render (o : Options) (text : String) : String :=
  let markup := (Block.table o.code).run (prepare text)
  if o.typingCursor then withCursor markup else markup

/-! ## A renderer with a registry -/

/-- A renderer; it shares the registry of the rule tables it uses for code. -/
structure Renderer where
  /-- The registry. -/
  registry : Highlight.Registry := {}

namespace Renderer

/-- Render an answer. -/
def render (r : Renderer) (o : Options) (text : String) : String × Renderer :=
  (Markup.render o text,
    if o.highlightCode then
      { registry := (Block.fences (prepare text)).foldl
          (fun reg f => (reg.highlight f.label f.body).2) r.registry }
    else r)

/-- A renderer in a message. -/
def describe (r : Renderer) : String :=
  showOpenRecord "MarkdownRenderer" [("highlighter", r.registry.describe)]

@[simp] theorem fst_render (r : Renderer) (o : Options) (text : String) :
    (r.render o text).1 = Markup.render o text := rfl

end Renderer

end Markup
end AnswerStream
