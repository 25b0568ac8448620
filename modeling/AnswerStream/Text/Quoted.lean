import AnswerStream.Text.Hidden

/-!
# Quoted text

A text inside a message is written between quotes so that its ends, and every
character without a visible form, can be seen.  The quote that encloses it and
the backslash are written after a backslash, five controls have a letter of their
own, and a hidden character is written by its code point in hexadecimal.
-/

namespace AnswerStream
namespace Text

/-- A character by its code point, in lower-case hexadecimal between braces. -/
def codePoint (c : Char) : String :=
  "\\u\x7b" ++ String.ofList (Nat.toDigits 16 c.toNat) ++ "\x7d"

/-- A character inside text that is enclosed by the quote `q`. -/
def quoteInside (q c : Char) : String :=
  if c = q ∨ c = '\\' then "\\" ++ String.singleton c
  else if c = '\n' then "\\n"
  else if c = '\r' then "\\r"
  else if c = '\t' then "\\t"
  else if c = '\x00' then "\\0"
  else if isHidden c then codePoint c
  else String.singleton c

/-- A text between double quotes. -/
def quote (s : String) : String :=
  "\"" ++ String.join (s.toList.map (quoteInside '"')) ++ "\""

/-- A character between single quotes. -/
def quoteChar (c : Char) : String :=
  "'" ++ quoteInside '\x27' c ++ "'"

@[simp] theorem quote_empty : quote "" = "\"\"" := by decide

/-- A visible character that is neither the quote nor the backslash stands for
itself. -/
theorem quoteInside_of_ascii {q c : Char} (hq : c ≠ q) (hb : c ≠ '\\') (h : 0x20 ≤ c.toNat)
    (h' : c.toNat < 0x7F) : quoteInside q c = String.singleton c := by
  have low : ∀ d : Char, d.toNat < 0x20 → c ≠ d := by
    rintro d hd rfl
    omega
  simp [quoteInside, hq, hb, low '\n' (by decide), low '\r' (by decide), low '\t' (by decide),
    low '\x00' (by decide), isHidden_of_ascii h h']

end Text
end AnswerStream
