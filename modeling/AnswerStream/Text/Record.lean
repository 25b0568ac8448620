/-!
# Records in messages

A value with named parts is shown in a message by its name and its parts in
braces, and a list by its members in brackets.  A record that keeps some of its
parts to itself ends in two dots.
-/

namespace AnswerStream
namespace Text

/-- The parts of a record, named and separated by commas. -/
def showFields (fields : List (String × String)) : String :=
  ", ".intercalate (fields.map fun f => f.1 ++ ": " ++ f.2)

/-- A record with all its parts. -/
def showRecord (name : String) (fields : List (String × String)) : String :=
  name ++ " \x7b " ++ showFields fields ++ " \x7d"

/-- A record that has more parts than it shows. -/
def showOpenRecord (name : String) (fields : List (String × String)) : String :=
  name ++ " \x7b " ++ showFields fields ++ ", .. \x7d"

/-- A value that carries others in parentheses. -/
def showCall (name : String) (parts : List String) : String :=
  name ++ "(" ++ ", ".intercalate parts ++ ")"

/-- A list in brackets. -/
def showList (items : List String) : String :=
  "[" ++ ", ".intercalate items ++ "]"

/-- An optional value. -/
def showOption : Option String → String
  | none => "None"
  | some s => showCall "Some" [s]

/-- A truth value. -/
def showBool (b : Bool) : String := if b then "true" else "false"

@[simp] theorem showOption_none : showOption none = "None" := rfl

@[simp] theorem showBool_true : showBool true = "true" := rfl

@[simp] theorem showBool_false : showBool false = "false" := rfl

end Text
end AnswerStream
