/-!
# The shortest decimal

Several decimals may round to the same binary number.  The shortest one is found
by going from coarse to fine powers of ten: on each grid only the two multiples
next to the number need a look, and the first grid that has one close enough
wins.  Of two that are close enough the nearer is taken.

All comparisons are between natural numbers.  A number is `m * 2 ^ q`; its
neighbours are half a unit away, or a quarter below a power of two, so bounds are
counted in quarters.
-/

namespace AnswerStream
namespace Decimal

/-- How `a * 10 ^ k` compares to `b * 2 ^ q`. -/
def compareScaled (a : Nat) (k : Int) (b : Nat) (q : Int) : Ordering :=
  compare (a * Nat.pow 10 k.toNat * Nat.pow 2 (-q).toNat)
    (b * Nat.pow 2 q.toNat * Nat.pow 10 (-k).toNat)

/-- The greatest `a` for which `a * 10 ^ k` is at most `b * 2 ^ q`. -/
def floorScaled (k : Int) (b : Nat) (q : Int) : Nat :=
  b * Nat.pow 2 q.toNat * Nat.pow 10 (-k).toNat / (Nat.pow 10 k.toNat * Nat.pow 2 (-q).toNat)

/-- The decimals that are read as one binary number. -/
structure Interval where
  /-- The number, in quarters. -/
  middle : Nat
  /-- The lower bound. -/
  low : Nat
  /-- The upper bound. -/
  high : Nat
  /-- The power of two of a quarter. -/
  power : Int
  /-- Whether the bounds belong to it. -/
  closed : Bool

namespace Interval

/-- Whether `a * 10 ^ k` lies in the interval. -/
def contains (i : Interval) (a : Nat) (k : Int) : Bool :=
  match compareScaled a k i.low i.power, compareScaled a k i.high i.power with
  | .lt, _ => false
  | _, .gt => false
  | .gt, .lt => true
  | _, _ => i.closed

/-- Whether the middle is nearer to `(a + 1) * 10 ^ k` than to `a * 10 ^ k`.  In
between it goes to the even one. -/
def nearerAbove (i : Interval) (a : Nat) (k : Int) : Bool :=
  match compareScaled (2 * a + 1) k (2 * i.middle) i.power with
  | .lt => true
  | .gt => false
  | .eq => a % 2 == 1

/-- The multiple of `10 ^ k` that is taken, if one lies in the interval. -/
def onGrid (i : Interval) (k : Int) : Option Nat :=
  let a := floorScaled k i.middle i.power
  match i.contains a k, i.contains (a + 1) k with
  | true, true => some (if i.nearerAbove a k then a + 1 else a)
  | true, false => some a
  | false, true => some (a + 1)
  | false, false => none

/-- The first hit on the grids `10 ^ k`, `10 ^ (k - 1)` and so on. -/
def search (i : Interval) : Nat → Int → Nat × Int
  | 0, k => (floorScaled k i.middle i.power, k)
  | tries + 1, k =>
    match i.onGrid k with
    | some a => (a, k)
    | none => i.search tries (k - 1)

end Interval

/-- The interval of a positive number `m * 2 ^ q`.  The gap below a power of two
is half as wide, unless the number is the least of its kind. -/
def interval (m : Nat) (q : Int) : Interval where
  middle := 4 * m
  low := 4 * m - (if m = Nat.pow 2 52 ∧ -1074 < q then 1 else 2)
  high := 4 * m + 2
  power := q - 2
  closed := m % 2 == 0

/-- The digits and the power of ten of the shortest decimal for `m * 2 ^ q`. -/
def shortest (m : Nat) (q : Int) : Nat × Int :=
  (interval m q).search 40 (((m.log2 : Int) + q + 1) * 30103 / 100000 + 2)

/-- A positive finite number as `m * 2 ^ q`. -/
def parts (x : Float) : Nat × Int :=
  let bits : Nat := x.toBits.toNat % Nat.pow 2 63
  let e : Nat := bits / Nat.pow 2 52
  let f : Nat := bits % Nat.pow 2 52
  if e = 0 then (f, -1074) else (Nat.pow 2 52 + f, (e : Int) - 1075)

end Decimal
end AnswerStream
