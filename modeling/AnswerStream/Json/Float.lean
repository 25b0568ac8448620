import AnswerStream.Decimal.Shortest
import AnswerStream.Json.Value

/-!
# Numbers as floating point

Reading takes the leading digits that fit into 64 bits as a significand; what
follows only counts towards the power of ten, or is left out.  The significand is
then scaled by one power of ten, so a number with few digits is read exactly and
a longer one may be off in its last place.  A number that is too large has no
value.

Writing takes the shortest decimal.  It has a point where its power of ten is
moderate and an exponent elsewhere.
-/

namespace AnswerStream
namespace Json
namespace Number

/-- A significand and a power of ten. -/
structure Scaled where
  /-- The digits that fit. -/
  significand : Nat
  /-- The power of ten. -/
  power : Int
  /-- Whether every digit so far has fitted. -/
  exact : Bool := true

namespace Scaled

/-- Whether the significand takes one more digit in 64 bits. -/
def fits (s : Scaled) (d : Nat) : Bool := s.significand * 10 + d < UInt64.size

/-- Take a digit before the point.  Once one has not fitted, none is taken. -/
def takeWhole (s : Scaled) (d : Nat) : Scaled :=
  if s.exact && s.fits d then { s with significand := s.significand * 10 + d }
  else { s with power := s.power + 1, exact := false }

/-- Take a digit after the point.  Once one has not fitted, the rest are left
out. -/
def takeFraction (s : Scaled) (d : Nat) : Scaled :=
  if s.exact && s.fits d then
    { s with significand := s.significand * 10 + d, power := s.power - 1 }
  else { s with exact := false }

/-- Multiply by a power of ten, in steps of `10 ^ 308`. -/
def scale : Nat → Float → Int → Option Float
  | 0, _, _ => none
  | steps + 1, f, e =>
    if e.natAbs ≤ 308 then
      let p := Float.ofScientific 1 false e.natAbs
      if 0 ≤ e then
        let g := f * p
        if g.isInf then none else some g
      else some (f / p)
    else if f == 0 then some f
    else if 0 ≤ e then none
    else scale steps (f / Float.ofScientific 1 false 308) (e + 308)

/-- The value. -/
def toFloat? (s : Scaled) : Option Float :=
  scale (s.power.natAbs + 2) (Float.ofNat s.significand) s.power

end Scaled

/-- The decimal digits of a number. -/
def digits (n : Nat) : List Nat := (Nat.toDigits 10 n).map fun c => c.toNat - 48

/-- The significand and the power of ten of the digits as written. -/
def scaled (n : Number) : Scaled :=
  let whole := (digits n.whole).foldl Scaled.takeWhole { significand := 0, power := 0 }
  n.fraction.foldl Scaled.takeFraction { whole with exact := true }

/-- The greatest power of ten that is told from larger ones. -/
def powerLimit : Int := Int32.maxValue.toInt

/-- The value of a number, if it is not too large. -/
def toFloat? (n : Number) : Option Float :=
  let s := n.scaled
  let e := n.exponent.getD 0
  let magnitude :=
    if powerLimit < e then if s.significand = 0 then some 0 else none
    else if e < -powerLimit then some 0
    else { s with power := s.power + e }.toFloat?
  magnitude.map fun f => if n.negative then -f else f

/-- A decimal `a * 10 ^ k` with a point where its size is moderate. -/
def ofDecimal (negative : Bool) (a : Nat) (k : Int) : Number :=
  let ds := digits a
  let point : Int := ds.length + k
  if 0 ≤ k ∧ point ≤ 16 then { negative, whole := a * Nat.pow 10 k.toNat, fraction := [0] }
  else if 0 < point ∧ point ≤ 16 then
    { negative, whole := a / Nat.pow 10 (-k).toNat, fraction := ds.drop point.toNat }
  else if -5 < point ∧ point ≤ 0 then
    { negative, whole := 0, fraction := List.replicate (-point).toNat 0 ++ ds }
  else
    { negative, whole := ds.headD 0, fraction := ds.tail, exponent := some (point - 1) }

/-- The shortest number that is read as `x`, which is finite. -/
def ofFloat (x : Float) : Number :=
  let negative := Nat.pow 2 63 ≤ x.toBits.toNat
  let p := Decimal.parts x
  if p.1 = 0 then { negative, whole := 0, fraction := [0] }
  else
    let d := Decimal.shortest p.1 p.2
    ofDecimal negative d.1 d.2

/-- A number with the precision at which it is read: an integer of at most 64
bits as it is, any other as floating point.  Minus zero counts as the latter. -/
def settle (n : Number) : Number :=
  if n.fraction = [] ∧ n.exponent = none ∧
      (if n.negative then 0 < n.whole ∧ n.whole ≤ Nat.pow 2 63 else n.whole < UInt64.size) then n
  else
    match n.toFloat? with
    | some f => ofFloat f
    | none => n

end Number

mutual

/-- A value with all its numbers at the precision at which they are read. -/
def settle : Json → Json
  | .number n => .number n.settle
  | .array items => .array (settleItems items)
  | .object fields => .object (settleFields fields)
  | v => v

/-- The items of a list, each settled. -/
def settleItems : List Json → List Json
  | [] => []
  | v :: vs => v.settle :: settleItems vs

/-- The fields of an object, each settled. -/
def settleFields : List (Str × Json) → List (Str × Json)
  | [] => []
  | (name, v) :: fields => (name, v.settle) :: settleFields fields

end

/-- A number as floating point, if it is not too large. -/
def float? : Json → Option Float
  | .number n => n.toFloat?
  | _ => none

/-- The value of a finite floating point number. -/
def ofFloat (x : Float) : Json := .number (Number.ofFloat x)

end Json
end AnswerStream
