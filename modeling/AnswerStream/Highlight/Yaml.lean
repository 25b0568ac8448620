import AnswerStream.Highlight.Role
import AnswerStream.Scan.Run
import AnswerStream.Text.Blank

/-!
# Settings written line by line

A YAML line is a key, a colon and a value.  A dash that stands for a list entry
is marked where it starts a line, quoted scalars nest in keys and values, and a
number sign after white space starts a comment.  Every newline starts a new key,
except inside a quoted scalar.
-/

namespace AnswerStream
namespace Highlight
namespace Yaml

open Text Scan

/-- The states of a scan over settings. -/
inductive State where
  | key
  | value
  | string
  | comment
  deriving DecidableEq

/-- The names of the states. -/
def State.label : State → String
  | key => "key"
  | value => "value"
  | string => "string"
  | comment => "comment"

/-- Whether a comment starts here. -/
def startsComment (c : Context) : Bool := c.ch == '#' && isBlankAt c.prev

/-- Whether a quoted scalar starts here: only after a separator does a quote
mean one. -/
def startsString (c : Context) : Bool :=
  (c.ch == '"' || c.ch == '\x27') &&
    match c.prev with
    | none => true
    | some p => [' ', '\t', ':', '[', ',', '\n'].contains p

/-- Whether a space, a tab or the end of the line follows. -/
def nextIsBlank (c : Context) : Bool :=
  match c.next with
  | none => true
  | some n => n == ' ' || n == '\t' || n == '\n'

/-- Whether a dash here stands for a list entry. -/
def startsEntry (c : Context) : Bool :=
  c.ch == '-' && nextIsBlank c && c.linePrefix.all isBlank

/-- A comment replaces what is around it. -/
def comment : Transition State where
  target := .state .comment
  fires := startsComment

/-- A quoted scalar lies inside what is around it. -/
def string : Transition State where
  target := .state .string
  fires := startsString
  nested := true
  pair := .trigger

/-- A new line starts with a key. -/
def newline : Transition State where
  target := .state .key
  fires c := c.ch == '\n'
  placement := some .between

/-- The dash of a list entry is marked on the spot. -/
def entry : Transition State where
  target := .stay
  fires := startsEntry
  chars := some fun _ => Role.branch.mark "-"

/-- The rules of every state. -/
def rules : State → Rules State
  | .key =>
    .span Role.key.cls
      [comment, entry, string,
       { target := .state .value, fires := fun c => c.ch == ':' && nextIsBlank c,
         placement := some .between },
       newline]
  | .value => .span Role.value.cls [newline, comment, string]
  | .string =>
    .span Role.string.cls
      [{ target := .stay, fires := fun c => c.ch == '\\' && c.pair == some '"', extra := 1,
         placement := some .closing },
       { target := .pop, fires := Context.atPair }]
  | .comment => .span Role.comment.cls [newline]

/-- The rule table of settings. -/
def table : Table State where
  name := "yaml"
  initial := .key
  states := [.key, .value, .string, .comment]
  rules := rules

end Yaml
end Highlight
end AnswerStream
