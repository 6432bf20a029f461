import BenchTables.Decimal.Rounding

/-!
# The value of a double

A double is an infinity, no number, or plus or minus `significand * 2 ^ exponent`.
`BinaryValue.ofFloat` gives that reading of a `Float`; the exact arithmetic on decimal texts and
integer columns is done on it, in natural numbers. `fraction` writes the magnitude as a quotient,
so that every rounding is a rounding of a quotient.
-/

namespace BenchTables.Decimal

/-- What a double stands for; both zeros are finite values of significand zero. -/
inductive BinaryValue where
  | nan
  | infinite (negative : Bool)
  | finite (negative : Bool) (significand : Nat) (exponent : Int)
deriving DecidableEq, Repr

namespace BinaryValue

def isMinus : Float.Model.UnpackedFloat.Sign → Bool
  | .negative => true
  | .positive => false

def ofFloat (x : Float) : BinaryValue :=
  match x.toModel.unpack with
  | .notANumber => .nan
  | .infinity sign => .infinite (isMinus sign)
  | .zero sign => .finite (isMinus sign) 0 0
  | .finite sign significand exponent _ => .finite (isMinus sign) significand exponent

/-- `significand * 2 ^ exponent` as a numerator and a positive denominator. -/
def fraction (significand : Nat) (exponent : Int) : Nat × Nat :=
  if 0 ≤ exponent then (significand * Nat.pow 2 exponent.toNat, 1)
  else (significand, Nat.pow 2 (-exponent).toNat)

theorem fraction_den_pos (significand : Nat) (exponent : Int) :
    0 < (fraction significand exponent).2 := by
  simp only [fraction]
  split
  · exact Nat.one_pos
  · exact Nat.two_pow_pos _

/-- The integer that a non-negative double is, if it is one. -/
def toNat? : BinaryValue → Option Nat
  | .finite negative significand exponent =>
    let (num, den) := fraction significand exponent
    if num % den = 0 ∧ (negative = false ∨ num = 0) then some (num / den) else none
  | _ => none

end BinaryValue

/-- The unsigned integer nearest to a double, an exact half going away from zero. Values outside
the range go to its nearer end, and what is no number goes to zero. -/
def nearestUInt64 (x : Float) : UInt64 :=
  match BinaryValue.ofFloat x with
  | .nan => 0
  | .infinite negative => if negative then 0 else UInt64.ofNatClamp UInt64.size
  | .finite negative significand exponent =>
    let (num, den) := BinaryValue.fraction significand exponent
    if negative then 0 else UInt64.ofNatClamp (roundHalfUp num den)

end BenchTables.Decimal
