import AnswerStream.Markup.Segment
import AnswerStream.Text.Blank
import AnswerStream.Text.Hidden
import AnswerStream.Text.Search

/-!
# Links and images

Links are found in markup, after emphasis and code have become tags and all other
text has been escaped.  The markup is cut into pieces from left to right: a
finished code span, a link or an image where one is written, and single
characters otherwise.  A piece is as long as it can be where it starts, and the
next one starts where it ends, so nothing is read twice.

## What becomes a link

A link is written `[label](address)`, an image the same after an exclamation
mark.  The label ends at the first right bracket.  The address has no white
space, quote, bracket or parenthesis, so it can stand in an attribute.

An address is refused if a browser might run it: one with a script scheme, with
inline data that is no image, or with a control character, which browsers drop
and which may thus hide a scheme.  A label is refused if it opens tags that it
does not close.  What is refused is left as it was written.
-/

namespace AnswerStream
namespace Markup

open Text

/-- A link or an image as it is written. -/
structure Link where
  /-- Whether it is an image. -/
  image : Bool
  /-- What is shown. -/
  label : List Char
  /-- Where it leads. -/
  address : List Char
  deriving DecidableEq

namespace Link

/-- Whether a character may stand in an address. -/
def inAddress (c : Char) : Bool :=
  !(c == '(' || c == ')' || isBlank c || c == '"' || c == '<' || c == '>' || c.toNat < 0x20 ||
    c.toNat == 0x7F)

/-- A link that starts with its left bracket, and what follows it. -/
def readBody (image : Bool) : List Char → Option Link
  | '[' :: cs =>
    match cs.dropWhile (· ≠ ']') with
    | ']' :: '(' :: rest =>
      let address := rest.takeWhile inAddress
      match rest.dropWhile inAddress with
      | ')' :: _ =>
        if address.isEmpty then none
        else some { image, label := cs.takeWhile (· ≠ ']'), address }
      | _ => none
    | _ => none
  | _ => none

/-- The link that the text starts with. -/
def read? : List Char → Option Link
  | '!' :: cs => readBody true cs
  | cs => readBody false cs

/-- A link as it is written. -/
def source (l : Link) : List Char :=
  (if l.image then ['!'] else []) ++ '[' :: l.label ++ ']' :: '(' :: l.address ++ [')']

/-- An address in lower case. -/
def lowered (l : Link) : List Char := l.address.map Char.toLower

/-- Whether the address starts with the given scheme. -/
def hasScheme (l : Link) (scheme : String) : Bool := scheme.toList.isPrefixOf l.lowered

/-- Whether the address must not go live. -/
def isRefused (l : Link) : Bool :=
  l.address.any isControl || l.hasScheme "javascript:" || l.hasScheme "vbscript:" ||
    (l.hasScheme "data:" && !(l.image && l.hasScheme "data:image/"))

/-- Whether the link goes live.  An image may have an empty label, a link not. -/
def isLive (l : Link) : Bool :=
  !l.isRefused && (l.image || !l.label.isEmpty) && isLevel l.label

/-- A label as the text of an attribute. -/
def alternative (label : List Char) : List Char :=
  (stripTags label).flatMap fun c => if c = '"' then "&quot;".toList else [c]

/-- The markup of a link that goes live. -/
def markup (l : Link) : List Char :=
  if l.image then
    "<img src=\"".toList ++ l.address ++ "\" alt=\"".toList ++ alternative l.label ++ "\">".toList
  else
    "<a href=\"".toList ++ l.address ++
      "\" target=\"_blank\" rel=\"noopener noreferrer\">".toList ++ l.label ++ "</a>".toList

end Link

/-! ## Pieces -/

/-- The tag that opens a code span. -/
def codeOpen : List Char := ['<', 'c', 'o', 'd', 'e', '>']

/-- The tag that closes a code span. -/
def codeClose : List Char := ['<', '/', 'c', 'o', 'd', 'e', '>']

/-- A piece of markup. -/
inductive Piece where
  /-- A single character. -/
  | char (c : Char)
  /-- A code span; what stands between its tags. -/
  | code (body : List Char)
  /-- A link or an image. -/
  | link (l : Link)
  deriving DecidableEq

namespace Piece

/-- A piece as it is written. -/
def source : Piece → List Char
  | char c => [c]
  | code body => codeOpen ++ body ++ codeClose
  | link l => l.source

/-- A piece with its link made live. -/
def markup : Piece → List Char
  | link l => if l.isLive then l.markup else l.source
  | p => p.source

/-- The code span that the text starts with: up to the first closing tag. -/
def readCode? (cs : List Char) : Option Piece :=
  if codeOpen.isPrefixOf cs then
    let parts := splitAtText codeClose (cs.drop codeOpen.length)
    if parts.2.isEmpty then none else some (.code parts.1)
  else none

/-- The code span or link that the text starts with. -/
def read? (cs : List Char) : Option Piece :=
  match readCode? cs with
  | some p => some p
  | none => (Link.read? cs).map .link

/-- The pieces of markup of which the first `skip` characters are already read. -/
def readAll : (skip : Nat) → List Char → List Piece
  | _, [] => []
  | skip + 1, _ :: cs => readAll skip cs
  | 0, c :: cs =>
    match read? (c :: cs) with
    | some p => p :: readAll (p.source.length - 1) cs
    | none => .char c :: readAll 0 cs

end Piece

/-- The pieces of markup. -/
def pieces (markup : List Char) : List Piece := Piece.readAll 0 markup

/-- Markup with its links made live. -/
def linked (markup : List Char) : List Char := (pieces markup).flatMap Piece.markup

/-- Markup with its links made live.  Where no label meets an address there is
nothing to do. -/
def resolveLinks (markup : List Char) : List Char :=
  if occursIn [']', '('] markup then linked markup else markup

end Markup
end AnswerStream
