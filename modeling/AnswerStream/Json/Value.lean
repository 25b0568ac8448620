/-!
# JSON values

A number is kept as it is written, since whether it counts as an integer or as a
fraction can be seen only there.  A string is kept as a text where it is one: a
string that names half of a surrogate pair is well formed and denotes no text,
and only a reader that needs the text may complain.
-/

namespace AnswerStream

/-- A JSON number as it is written. -/
structure Json.Number where
  /-- Whether it has a minus sign. -/
  negative : Bool := false
  /-- The digits before the point. -/
  whole : Nat
  /-- The digits after the point. -/
  fraction : List Nat := []
  /-- The power of ten, if one is written. -/
  exponent : Option Int := none
  deriving DecidableEq

/-- A string of a JSON text: `none` when it denotes no text. -/
abbrev Json.Str := Option String

/-- A JSON value. -/
inductive Json where
  | null
  | bool (b : Bool)
  | number (n : Json.Number)
  | string (s : Json.Str)
  | array (items : List Json)
  | object (fields : List (Json.Str × Json))

namespace Json

/-- The value of a text. -/
def ofText (s : String) : Json := .string (some s)

/-- The value of a natural number. -/
def ofNat (n : Nat) : Json := .number { whole := n }

/-- An object with the given fields. -/
def ofFields (fields : List (String × Json)) : Json :=
  .object (fields.map fun f => (some f.1, f.2))

/-- A list of texts. -/
def ofTexts (items : List String) : Json := .array (items.map ofText)

/-- A field that is written only when it has a value. -/
def fieldOfOption (name : String) (value : Option Json) : List (String × Json) :=
  value.toList.map fun v => (name, v)

/-- A field that is written only when its list is not empty. -/
def fieldOfList (name : String) (items : List Json) : List (String × Json) :=
  if items.isEmpty then [] else [(name, .array items)]

/-- A value, or null for none. -/
def ofOption : Option Json → Json
  | none => .null
  | some v => v

end Json

end AnswerStream
