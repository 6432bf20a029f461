import BenchTables.Decimal.BinaryValue
import BenchTables.Decimal.Digits

/-!
# The shortest decimal that reads back

A double is the nearest double to every real number in an interval around it. `shortest` gives
the decimal with the fewest digits in that interval, and of those the nearest to the double, an
exact tie going to the even digit. The search tries one digit, two digits, and so on, looking each
time at the two decimals next to the double; the exact decimal expansion stands behind it, so the
answer always lies in the interval.
-/

namespace BenchTables.Decimal

structure Scientific where
  coefficient : Nat
  exponent : Int
deriving DecidableEq, Repr

namespace Scientific

/-- The same number with a coefficient that does not end in zero, for a positive coefficient. -/
def normalize (s : Scientific) : Scientific :=
  let ds := digits s.coefficient
  let kept := (ds.reverse.dropWhile (· = '0')).reverse
  ⟨digitsValue kept, s.exponent + (ds.length - kept.length : Nat)⟩

def leading (s : Scientific) : Int :=
  s.exponent + (digits s.coefficient).length - 1

end Scientific

/-- The real numbers that round to one double, as a numerator for each end and for the double
itself over a common denominator; the ends belong to the interval when the significand is even. -/
structure RoundingInterval where
  lower : Nat
  value : Nat
  upper : Nat
  den : Nat
  closed : Bool
deriving Repr

namespace RoundingInterval

/-- The least significand of a double of full precision. -/
def leastFull : Nat := 0x10000000000000

/-- The interval of the positive double `significand * 2 ^ exponent`. Below a power of two the
neighbouring double is only half as far away. -/
def ofDouble (significand : Nat) (exponent : Int) : RoundingInterval :=
  -- Quarters of the unit make half of the halved gap a whole number.
  let halfGap := if significand = leastFull ∧ -1074 < exponent then 1 else 2
  let (unit, den) := BinaryValue.fraction 1 (exponent - 2)
  { lower := (4 * significand - halfGap) * unit
    value := 4 * significand * unit
    upper := (4 * significand + 2) * unit
    den := den
    closed := significand % 2 = 0 }

def inUnits (i : RoundingInterval) (k : Int) : RoundingInterval :=
  let up := Nat.pow 10 (-k).toNat
  { i with
    lower := i.lower * up
    value := i.value * up
    upper := i.upper * up
    den := i.den * Nat.pow 10 k.toNat }

def contains (i : RoundingInterval) (c : Nat) : Bool :=
  if i.closed then i.lower ≤ c * i.den ∧ c * i.den ≤ i.upper
  else i.lower < c * i.den ∧ c * i.den < i.upper

/-- The natural number in the interval that is nearest to the double, if one of its two
neighbours lies there; an exact tie goes to the even one. -/
def nearest? (i : RoundingInterval) : Option Nat :=
  let below := i.value / i.den
  let above := below + 1
  if i.contains below then
    if i.contains above then
      match compare (2 * i.value) ((below + above) * i.den) with
      | .lt => some below
      | .gt => some above
      | .eq => some (below + below % 2)
    else some below
  else if i.contains above then some above
  else none

def leading (i : RoundingInterval) : Int :=
  if i.den ≤ i.value then (digits (i.value / i.den)).length - 1
  -- Below one the exponent is read off the inverse, rounded so that powers of ten fall right.
  else -((digits ((i.den - 1) / i.value)).length : Int)

end RoundingInterval

def expansion (significand : Nat) (exponent : Int) : Scientific :=
  if 0 ≤ exponent then ⟨significand * Nat.pow 2 exponent.toNat, 0⟩
  else ⟨significand * Nat.pow 5 (-exponent).toNat, exponent⟩

def shortest (significand : Nat) (exponent : Int) : Scientific :=
  let interval := RoundingInterval.ofDouble significand exponent
  -- Seventeen digits tell any two doubles apart, so the full expansion is never needed.
  let found := (List.range 17).findSome? fun (n : Nat) =>
    let k := interval.leading - n
    (interval.inUnits k).nearest?.map (⟨·, k⟩)
  (found.getD (expansion significand exponent)).normalize

end BenchTables.Decimal
