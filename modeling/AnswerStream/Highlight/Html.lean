import AnswerStream.Highlight.Role
import AnswerStream.Scan.Run
import AnswerStream.Text.Blank
import AnswerStream.Text.Search

/-!
# Documents with embedded scripts and styles

A document is text with tags and comments; a tag has attributes with quoted
values.  The body of a script or a style element is written in another notation,
so it must not be read as markup.

## Lifting bodies out

Before the document is scanned, each such body is cut out and a placeholder is
put in its place: a marker, the number of the body, and the marker again.  The
marker is a run of a private character, longer than any such run in the document,
so no placeholder can be mistaken for text.  After the scan every placeholder is
replaced by its body, which has been marked up on its own.
-/

namespace AnswerStream
namespace Highlight
namespace Html

open Text Scan

/-- The states of a scan over a document. -/
inductive State where
  | text
  | tag
  | value
  | comment
  deriving DecidableEq

/-- The names of the states. -/
def State.label : State → String
  | text => "text"
  | tag => "tag"
  | value => "attr-value"
  | comment => "comment"

/-- Whether a tag starts here: a bracket with a letter, a slash or a declaration
mark after it. -/
def startsTag (c : Context) : Bool :=
  c.ch == '<' &&
    match c.next with
    | none => false
    | some n => n.isAlpha || n == '/' || n == '!' || n == '?'

/-- A word inside a tag is the name of an attribute, unless it is the name of the
tag. -/
def tagWord (k : Token State) : String :=
  if k.text = "" ∨ k.before = some '<' ∨ k.before = some '/' then k.text
  else Role.attr.mark k.text

/-- The rules of every state. -/
def rules : State → Rules State
  | .text =>
    { transitions :=
        [{ target := .state .comment, fires := fun c => c.startsWith ['<', '!', '-', '-'],
           extra := 3 },
         { target := .state .tag, fires := startsTag }] }
  | .tag =>
    .span Role.tag.cls
      [{ target := .state .value, fires := fun c => c.ch == '"' || c.ch == '\x27',
         nested := true, pair := .trigger },
       { target := .state .text, fires := fun c => c.ch == '>', placement := some .closing },
       { target := .stay, fires := fun c => isBlank c.ch || c.ch == '=' }]
      (some tagWord)
  | .value => .span Role.string.cls [{ target := .pop, fires := Context.atPair }]
  | .comment =>
    .span Role.comment.cls
      [{ target := .state .text, fires := fun c => c.startsWith ['-', '-', '>'], extra := 2,
         placement := some .closing }]

/-- The rule table of documents. -/
def table : Table State where
  name := "html"
  initial := .text
  states := [.text, .tag, .value, .comment]
  rules := rules

/-! ## Embedded bodies -/

/-- The elements whose bodies are written in another notation. -/
inductive Embedding where
  | script
  | style
  deriving DecidableEq

/-- The name of the element. -/
def Embedding.element : Embedding → List Char
  | script => ['s', 'c', 'r', 'i', 'p', 't']
  | style => ['s', 't', 'y', 'l', 'e']

/-- Whether the text starts with `pat`, which is in lower case, in any case. -/
def startsAnyCase (pat cs : List Char) : Bool :=
  (cs.take pat.length).map Char.toLower == pat

/-- Whether the opening tag of an element starts here.  A longer name that only
starts like the element's does not count. -/
def Embedding.opensAt (e : Embedding) (cs : List Char) : Bool :=
  let tag := '<' :: e.element
  startsAnyCase tag cs &&
    match cs[tag.length]? with
    | none => true
    | some c => c == '>' || c == '/' || isBlank c

/-- Whether the closing tag of an element starts here. -/
def Embedding.closesAt (e : Embedding) (cs : List Char) : Bool :=
  startsAnyCase ('<' :: '/' :: e.element) cs

/-- The element whose opening tag starts here. -/
def embeddingAt (cs : List Char) : Option Embedding :=
  if Embedding.script.opensAt cs then some .script
  else if Embedding.style.opensAt cs then some .style
  else none

/-- A body and the text before it, which ends with its opening tag. -/
structure Body where
  /-- The document from the body before up to this one. -/
  lead : List Char
  /-- The element around the body. -/
  element : Embedding
  /-- The body itself. -/
  text : List Char

/-- Cut a document at its embedded bodies.  The second part is what follows the
last of them.  An opening tag that never ends has no body, and ends the search;
a body that is never closed runs to the end. -/
def cut (cs : List Char) : List Body × List Char :=
  let parts := splitWhere (fun rest => (embeddingAt rest).isSome) cs
  match embeddingAt parts.2 with
  | none => ([], cs)
  | some element =>
    let tag := splitWhere (fun rest => rest.head? == some '>') parts.2
    match _h : tag.2 with
    | [] => ([], cs)
    | gt :: inside =>
      let body := splitWhere element.closesAt inside
      let rest := cut body.2
      ({ lead := parts.1 ++ tag.1 ++ [gt], element, text := body.1 } :: rest.1, rest.2)
termination_by cs.length
decreasing_by
  have h₁ : parts.2.length ≤ cs.length := length_splitWhere_snd_le _ _
  have h₂ : tag.2.length ≤ parts.2.length := length_splitWhere_snd_le _ _
  have h₃ := length_splitWhere_snd_le element.closesAt inside
  have h₄ : tag.2.length = inside.length + 1 := by rw [_h]; rfl
  omega

/-- A private character that text does not use. -/
def markerChar : Char := '\uE000'

/-- A run of the private character that does not occur in the text. -/
def marker (cs : List Char) : List Char :=
  List.replicate (longestRun markerChar cs + 1) markerChar

/-- What stands for the body number `i`. -/
def placeholder (marker : List Char) (i : Nat) : List Char :=
  marker ++ (toString i).toList ++ marker

/-- The document with placeholders for its bodies, numbered from `i` on. -/
def skeleton (marker : List Char) : Nat → List Body → List Char → List Char
  | _, [], last => last
  | i, b :: bs, last => b.lead ++ placeholder marker i ++ skeleton marker (i + 1) bs last

/-- Replace the placeholders, numbered from `i` on, by the given texts, each where
it occurs first. -/
def splice (marker : List Char) : Nat → List (List Char) → List Char → List Char
  | _, [], out => out
  | i, t :: ts, out => splice marker (i + 1) ts (replaceFirst (placeholder marker i) t out)

/-- The markup of a document, given how bodies are marked up. -/
def highlight (inside : Embedding → String → String) (code : String) : String :=
  let mark := marker code.toList
  let parts := cut code.toList
  let out := table.run (String.ofList (skeleton mark 0 parts.1 parts.2))
  let bodies := parts.1.map fun b => (inside b.element (String.ofList b.text)).toList
  String.ofList (splice mark 0 bodies out.toList)

/-- The elements of a document that have a body, in order. -/
def embeddings (code : String) : List Embedding := (cut code.toList).1.map Body.element

end Html
end Highlight
end AnswerStream
