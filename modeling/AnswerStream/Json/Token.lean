import AnswerStream.Json.Value

/-!
# The tokens of a JSON text

A text is cut into tokens one character at a time.  White space separates tokens
and is one of four ASCII characters.  A word or a number ends at the first
character that cannot belong to it; whether two tokens may stand next to each
other is for the grammar to say, which refuses all that meet without a separator.

## Strings

Inside a string every character stands for itself except the quote, the backslash
and the controls, which are refused.  A backslash starts an escape.  The escapes
by code name UTF-16 units, so a string is first a list of code points in which
units of a surrogate pair may be left; it denotes a text when they pair up.
-/

namespace AnswerStream
namespace Json

/-- A token. -/
inductive Token where
  | openArray
  | closeArray
  | openObject
  | closeObject
  | colon
  | comma
  | null
  | bool (b : Bool)
  | number (n : Number)
  | string (s : Str)
  deriving DecidableEq

/-! ## Numbers -/

/-- The value of a list of digits. -/
def ofDigits (ds : List Char) : Nat := ds.foldl (fun n d => n * 10 + (d.toNat - 48)) 0

/-- The digits after the point, if there is a point. -/
def Number.readFraction : List Char → Option (List Nat × List Char)
  | '.' :: cs =>
    let ds := cs.takeWhile Char.isDigit
    if ds.isEmpty then none else some (ds.map fun d => d.toNat - 48, cs.dropWhile Char.isDigit)
  | cs => some ([], cs)

/-- The digits of an exponent, with the sign already read. -/
def Number.readPower (negative : Bool) (cs : List Char) : Option (Option Int) :=
  if cs.isEmpty || !cs.all Char.isDigit then none
  else some (some (if negative then -(ofDigits cs : Int) else ofDigits cs))

/-- The exponent, if there is one, up to the end. -/
def Number.readExponent : List Char → Option (Option Int)
  | [] => some none
  | c :: cs =>
    if c = 'e' ∨ c = 'E' then
      match cs with
      | '-' :: ds => readPower true ds
      | '+' :: ds => readPower false ds
      | ds => readPower false ds
    else none

/-- A number without its sign.  A zero before the point stands alone. -/
def Number.readUnsigned (negative : Bool) (cs : List Char) : Option Number :=
  let ds := cs.takeWhile Char.isDigit
  if ds.isEmpty || (ds.head? == some '0' && ds.length != 1) then none
  else do
    let (fraction, rest) ← readFraction (cs.dropWhile Char.isDigit)
    let exponent ← readExponent rest
    return { negative, whole := ofDigits ds, fraction, exponent }

/-- The number that is written by exactly these characters. -/
def Number.ofChars? : List Char → Option Number
  | '-' :: cs => readUnsigned true cs
  | cs => readUnsigned false cs

/-! ## Strings -/

/-- The value of a hexadecimal digit. -/
def hexValue? (c : Char) : Option Nat :=
  if c.isDigit then some (c.toNat - 48)
  else if 'a' ≤ c ∧ c ≤ 'f' then some (c.toNat - 87)
  else if 'A' ≤ c ∧ c ≤ 'F' then some (c.toNat - 55)
  else none

/-- The text of a list of code points and UTF-16 units.  A high surrogate takes
the low one after it; a surrogate without its partner denotes nothing. -/
def ofUnits : List Nat → Option (List Char)
  | [] => some []
  | u :: us =>
    if 0xDC00 ≤ u ∧ u ≤ 0xDFFF then none
    else if 0xD800 ≤ u ∧ u ≤ 0xDBFF then
      match us with
      | [] => none
      | v :: vs =>
        if 0xDC00 ≤ v ∧ v ≤ 0xDFFF then
          (ofUnits vs).map (Char.ofNat (0x10000 + (u - 0xD800) * 0x400 + (v - 0xDC00)) :: ·)
        else none
    else (ofUnits us).map (Char.ofNat u :: ·)

/-- The character that a letter after a backslash stands for. -/
def escaped? : Char → Option Nat
  | '"' => some 0x22
  | '\\' => some 0x5C
  | '/' => some 0x2F
  | 'b' => some 0x08
  | 'f' => some 0x0C
  | 'n' => some 0x0A
  | 'r' => some 0x0D
  | 't' => some 0x09
  | _ => none

/-! ## The scan -/

/-- What is being read. -/
inductive Token.Mode where
  /-- Nothing: the scan is between tokens. -/
  | between
  /-- A word; its characters, the latest first. -/
  | word (read : List Char)
  /-- A number; its characters, the latest first. -/
  | number (read : List Char)
  /-- A string; its units, the latest first. -/
  | string (read : List Nat)
  /-- A string just after a backslash. -/
  | escape (read : List Nat)
  /-- A string inside an escape by code: how many digits are missing after the
  next one, and the value so far. -/
  | code (read : List Nat) (missing value : Nat)

/-- Tokens read so far, the latest first, and what is being read. -/
structure Token.Scan where
  /-- The finished tokens, the latest first. -/
  tokens : List Token := []
  /-- What is being read. -/
  mode : Token.Mode := .between

/-- Whether a character can belong to a number. -/
def Token.inNumber (c : Char) : Bool :=
  c.isDigit || c == '-' || c == '+' || c == '.' || c == 'e' || c == 'E'

/-- The token of a word. -/
def Token.ofWord? (word : List Char) : Option Token :=
  if word = ['n', 'u', 'l', 'l'] then some .null
  else if word = ['t', 'r', 'u', 'e'] then some (.bool true)
  else if word = ['f', 'a', 'l', 's', 'e'] then some (.bool false)
  else none

namespace Token.Scan

/-- Finish a word or a number. -/
def settle (s : Scan) : Option Scan :=
  match s.mode with
  | .word read => (ofWord? read.reverse).map fun k => { tokens := k :: s.tokens }
  | .number read =>
    (Number.ofChars? read.reverse).map fun n => { tokens := .number n :: s.tokens }
  | .between => some s
  | _ => none

/-- Read a character that starts something new. -/
def begin? (s : Scan) (c : Char) : Option Scan :=
  let put (k : Token) : Option Scan := some { tokens := k :: s.tokens }
  if c = ' ' ∨ c = '\n' ∨ c = '\t' ∨ c = '\r' then some { tokens := s.tokens }
  else if c = '[' then put .openArray
  else if c = ']' then put .closeArray
  else if c = '\x7b' then put .openObject
  else if c = '\x7d' then put .closeObject
  else if c = ':' then put .colon
  else if c = ',' then put .comma
  else if c = '"' then some { s with mode := .string [] }
  else if c = '-' ∨ c.isDigit then some { s with mode := .number [c] }
  else if c.isAlpha then some { s with mode := .word [c] }
  else none

/-- Read one character. -/
def step (s : Scan) (c : Char) : Option Scan :=
  match s.mode with
  | .between => s.begin? c
  | .word read =>
    if c.isAlpha then some { s with mode := .word (c :: read) }
    else s.settle.bind fun s => s.begin? c
  | .number read =>
    if inNumber c then some { s with mode := .number (c :: read) }
    else s.settle.bind fun s => s.begin? c
  | .string read =>
    if c = '"' then
      some { tokens := .string ((ofUnits read.reverse).map String.ofList) :: s.tokens }
    else if c = '\\' then some { s with mode := .escape read }
    else if c.toNat < 0x20 then none
    else some { s with mode := .string (c.toNat :: read) }
  | .escape read =>
    if c = 'u' then some { s with mode := .code read 3 0 }
    else (escaped? c).map fun u => { s with mode := .string (u :: read) }
  | .code read missing value =>
    (hexValue? c).map fun d =>
      let value := value * 16 + d
      match missing with
      | 0 => { s with mode := .string (value :: read) }
      | missing + 1 => { s with mode := .code read missing value }

end Token.Scan

/-- The tokens of a text, or nothing if it cannot be cut into tokens. -/
def Token.ofChars? (cs : List Char) : Option (List Token) := do
  let s ← cs.foldlM Token.Scan.step {}
  let s ← s.settle
  return s.tokens.reverse

end Json
end AnswerStream
