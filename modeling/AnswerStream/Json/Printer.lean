import AnswerStream.Json.Value

/-!
# Writing JSON

A value is written without white space.  In strings the quote, the backslash and
the controls are escaped, five of them by a letter; all other characters are
written as they are.
-/

namespace AnswerStream
namespace Json

/-- A hexadecimal digit. -/
def hexDigit (n : Nat) : Char := (Nat.toDigits 16 (n % 16)).headD '0'

/-- A character by its UTF-16 unit. -/
def escapeCode (n : Nat) : String :=
  "\\u" ++ String.ofList
    [hexDigit (n / 4096), hexDigit (n / 256), hexDigit (n / 16), hexDigit n]

/-- A character inside a string. -/
def printChar (c : Char) : String :=
  if c = '"' then "\\\""
  else if c = '\\' then "\\\\"
  else if c = '\x08' then "\\b"
  else if c = '\x0c' then "\\f"
  else if c = '\n' then "\\n"
  else if c = '\r' then "\\r"
  else if c = '\t' then "\\t"
  else if c.toNat < 0x20 then escapeCode c.toNat
  else String.singleton c

/-- A string.  One that denotes no text is written as the unit that makes it so. -/
def printStr : Str → String
  | some s => "\"" ++ s.toList.foldl (fun out c => out ++ printChar c) "" ++ "\""
  | none => "\"\\ud800\""

/-- A number. -/
def Number.print (n : Number) : String :=
  (if n.negative then "-" else "") ++ toString n.whole ++
    (if n.fraction.isEmpty then "" else "." ++ String.join (n.fraction.map toString)) ++
    (match n.exponent with
      | none => ""
      | some e => "e" ++ toString e)

mutual

/-- A value. -/
def print : Json → String
  | .null => "null"
  | .bool b => if b then "true" else "false"
  | .number n => n.print
  | .string s => printStr s
  | .array items => "[" ++ ",".intercalate (printItems items) ++ "]"
  | .object fields => "\x7b" ++ ",".intercalate (printFields fields) ++ "\x7d"

/-- The items of a list. -/
def printItems : List Json → List String
  | [] => []
  | v :: vs => v.print :: printItems vs

/-- The fields of an object. -/
def printFields : List (Str × Json) → List String
  | [] => []
  | (name, v) :: fields => (printStr name ++ ":" ++ v.print) :: printFields fields

end

end Json
end AnswerStream
