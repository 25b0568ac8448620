import AnswerStream.Json.Token

/-!
# Reading a JSON text

Values are put together from tokens by a machine with a stack of unfinished lists
and objects, so a text may nest as deeply as it likes.  The machine refuses the
first token that no text could continue with; a text is a value if the machine
has exactly one at the end.
-/

namespace AnswerStream
namespace Json

/-- A list or an object that is not finished, waiting for a value. -/
inductive Open where
  /-- The items so far, the latest first. -/
  | array (items : List Json)
  /-- The fields so far, the latest first, and the name of the next one. -/
  | object (fields : List (Str × Json)) (name : Str)

/-- What may come next. -/
inductive Stage where
  /-- A value. -/
  | value
  /-- A value, or the end of an empty list. -/
  | firstItem
  /-- A name, or the end of an empty object. -/
  | firstName
  /-- A name, after the given fields. -/
  | name (fields : List (Str × Json))
  /-- A colon, after the given fields and a name. -/
  | colon (fields : List (Str × Json)) (name : Str)
  /-- A separator or an end: the value `v` is finished. -/
  | after (v : Json)

/-- A text that has been read in part. -/
structure Reading where
  /-- What is unfinished, innermost first. -/
  stack : List Open := []
  /-- What may come next. -/
  stage : Stage := .value

namespace Reading

/-- Read the first token of a value. -/
def beginValue (r : Reading) : Token → Option Reading
  | .openArray => some { r with stage := .firstItem }
  | .openObject => some { r with stage := .firstName }
  | .null => some { r with stage := .after .null }
  | .bool b => some { r with stage := .after (.bool b) }
  | .number n => some { r with stage := .after (.number n) }
  | .string s => some { r with stage := .after (.string s) }
  | _ => none

/-- Read a token after the finished value `v`. -/
def afterValue (v : Json) : List Open → Token → Option Reading
  | .array items :: stack, .comma => some { stack := .array (v :: items) :: stack }
  | .array items :: stack, .closeArray =>
    some { stack, stage := .after (.array (v :: items).reverse) }
  | .object fields name :: stack, .comma => some { stack, stage := .name ((name, v) :: fields) }
  | .object fields name :: stack, .closeObject =>
    some { stack, stage := .after (.object ((name, v) :: fields).reverse) }
  | _, _ => none

/-- Read one token. -/
def step (r : Reading) (k : Token) : Option Reading :=
  match r.stage, k with
  | .value, k => r.beginValue k
  | .firstItem, .closeArray => some { r with stage := .after (.array []) }
  | .firstItem, k => { r with stack := .array [] :: r.stack }.beginValue k
  | .firstName, .closeObject => some { r with stage := .after (.object []) }
  | .firstName, .string name => some { r with stage := .colon [] name }
  | .name fields, .string name => some { r with stage := .colon fields name }
  | .colon fields name, .colon => some { stack := .object fields name :: r.stack }
  | .after v, k => afterValue v r.stack k
  | _, _ => none

/-- The value that has been read, if nothing is missing. -/
def result (r : Reading) : Option Json :=
  match r.stack, r.stage with
  | [], .after v => some v
  | _, _ => none

end Reading

/-- The value that a list of tokens spells. -/
def ofTokens? (ks : List Token) : Option Json := do
  let r ← ks.foldlM Reading.step {}
  r.result

/-- The value that a text spells. -/
def parse? (text : String) : Option Json := do
  let ks ← Token.ofChars? text.toList
  ofTokens? ks

end Json
end AnswerStream
