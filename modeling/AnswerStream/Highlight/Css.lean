import AnswerStream.Highlight.Role
import AnswerStream.Scan.Run

/-!
# Style sheets

A style sheet alternates between selectors, properties and values, separated by
braces, colons and semicolons, which belong to none of them.  Comments nest in
each of the three, strings in selectors and values.
-/

namespace AnswerStream
namespace Highlight
namespace Css

open Scan

/-- The states of a scan over a style sheet. -/
inductive State where
  | selector
  | property
  | value
  | string
  | comment
  deriving DecidableEq

/-- The names of the states. -/
def State.label : State → String
  | selector => "selector"
  | property => "property"
  | value => "value"
  | string => "string"
  | comment => "comment"

/-- A comment starts, inside whatever is around it. -/
def comment : Transition State where
  target := .state .comment
  fires c := c.startsWith ['/', '*']
  extra := 1
  nested := true

/-- A string starts, inside whatever is around it. -/
def string : Transition State where
  target := .state .string
  fires c := c.ch == '"' || c.ch == '\x27'
  nested := true
  pair := .trigger

/-- The character `separator` ends one part and starts the part `s`. -/
def between (s : State) (separator : Char) : Transition State where
  target := .state s
  fires c := c.ch == separator
  placement := some .between

/-- The rules of every state. -/
def rules : State → Rules State
  | .selector => .span Role.selector.cls [comment, string, between .property '\x7b']
  | .property =>
    .span Role.property.cls [comment, between .value ':', between .selector '\x7d']
  | .value =>
    .span Role.value.cls
      [comment, string, between .property ';', between .selector '\x7d']
  | .string =>
    .span Role.string.cls
      [{ target := .stay, fires := fun c => c.ch == '\\', extra := 1, placement := some .closing },
       { target := .pop, fires := Context.atPair }]
  | .comment =>
    .span Role.comment.cls
      [{ target := .pop, fires := fun c => c.startsWith ['*', '/'], extra := 1 }]

/-- The rule table of style sheets. -/
def table : Table State where
  name := "css"
  initial := .selector
  states := [.selector, .property, .value, .string, .comment]
  rules := rules

end Css
end Highlight
end AnswerStream
