/-!
# What a stretch of code is

A highlighter marks stretches of code by what they are.  The mark is a `span`
whose class names the role, and it changes nothing of the code itself.
-/

namespace AnswerStream
namespace Highlight

/-- What a stretch of code is. -/
inductive Role where
  | keyword
  | name
  | property
  | number
  | string
  | comment
  | regex
  | selector
  | value
  | key
  | branch
  | tag
  | attr
  deriving DecidableEq

namespace Role

/-- The class that marks a role. -/
def cls : Role → String
  | keyword => "hl-keyword"
  | name => "hl-variable"
  | property => "hl-property"
  | number => "hl-number"
  | string => "hl-string"
  | comment => "hl-comment"
  | regex => "hl-regex"
  | selector => "hl-selector"
  | value => "hl-value"
  | key => "hl-key"
  | branch => "hl-branch"
  | tag => "hl-tag"
  | attr => "hl-attr"

/-- Markup that is marked with a role. -/
def mark (r : Role) (markup : String) : String :=
  "<span class=\"" ++ r.cls ++ "\">" ++ markup ++ "</span>"

theorem mark_eq (r : Role) (markup : String) :
    r.mark markup = "<span class=\"" ++ r.cls ++ "\">" ++ markup ++ "</span>" := rfl

end Role

end Highlight
end AnswerStream
