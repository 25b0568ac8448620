/-!
# Characters by ranges

A property of characters that comes from a standard is a sorted list of closed
ranges of code points.  Membership walks the list and stops at the first range
that starts above the character, so it asks no more ranges than it must.
-/

namespace AnswerStream
namespace Text

/-- Whether a character's code point lies in one of the ranges, which are sorted
and given by their first and last member. -/
def inRanges : List (Nat × Nat) → Char → Bool
  | [], _ => false
  | (lo, hi) :: rest, c =>
    if c.toNat < lo then false else c.toNat ≤ hi || inRanges rest c

@[simp] theorem inRanges_nil (c : Char) : inRanges [] c = false := rfl

/-- A character below the first range is in none. -/
theorem inRanges_of_lt {lo hi : Nat} {rest : List (Nat × Nat)} {c : Char}
    (h : c.toNat < lo) : inRanges ((lo, hi) :: rest) c = false := by
  simp [inRanges, h]

end Text
end AnswerStream
