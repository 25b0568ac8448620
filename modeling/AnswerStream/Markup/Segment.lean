/-!
# Tags in markup

Markup is text with tags in it.  A tag starts at a left bracket and runs to the
first right bracket after it, whatever lies between.  A left bracket that no right
bracket follows is text.
-/

namespace AnswerStream
namespace Markup

/-- A part of markup. -/
inductive Segment where
  /-- A character of text. -/
  | char (c : Char)
  /-- A tag; what stands between its brackets. -/
  | tag (inside : List Char)
  deriving DecidableEq

namespace Segment

/-- The segments of markup.  Inside a tag, `held` is what was read of it, the
latest character first. -/
def read : (held : Option (List Char)) → List Char → List Segment
  | none, [] => []
  | some held, [] => .char '<' :: held.reverse.map .char
  | none, c :: cs => if c = '<' then read (some []) cs else .char c :: read none cs
  | some held, c :: cs =>
    if c = '>' then .tag held.reverse :: read none cs else read (some (c :: held)) cs

/-- The markup of a segment. -/
def source : Segment → List Char
  | char c => [c]
  | tag inside => '<' :: inside ++ ['>']

/-- The text of a segment: a tag has none. -/
def text : Segment → List Char
  | char c => [c]
  | tag _ => []

/-- Whether a segment is a closing tag. -/
def isClosing : Segment → Bool
  | tag ('/' :: _) => true
  | _ => false

/-- Whether a segment is a tag that is not a closing one. -/
def isOpening : Segment → Bool
  | tag ('/' :: _) => false
  | tag _ => true
  | char _ => false

end Segment

/-- The segments of markup. -/
def segments (markup : List Char) : List Segment := Segment.read none markup

/-- Markup without its tags. -/
def stripTags (markup : List Char) : List Char := (segments markup).flatMap Segment.text

/-- Whether markup has as many closing tags as others. -/
def isLevel (markup : List Char) : Bool :=
  (segments markup).countP Segment.isOpening == (segments markup).countP Segment.isClosing

end Markup
end AnswerStream
