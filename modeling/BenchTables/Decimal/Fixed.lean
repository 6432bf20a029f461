import BenchTables.Decimal.BinaryValue
import BenchTables.Decimal.Digits

/-!
# Two decimal places

Every quantity in a table or a log line is written with two decimals. The double is taken as its
exact binary value and rounded once to hundredths, an exact half to the even hundredth; the sign
of a negative zero is kept and no exponent is ever written.
-/

namespace BenchTables.Decimal

def hundredths (significand : Nat) (exponent : Int) : Nat :=
  let (num, den) := BinaryValue.fraction significand exponent
  roundHalfEven (100 * num) den

def hundredthsText (n : Nat) : String :=
  natText (n / 100) ++ "." ++ natText (n / 10 % 10) ++ natText (n % 10)

def BinaryValue.twoPlaces : BinaryValue → String
  | .nan => "NaN"
  | .infinite negative => if negative then "-inf" else "inf"
  | .finite negative significand exponent =>
    (if negative then "-" else "") ++ hundredthsText (hundredths significand exponent)

def twoPlaces (x : Float) : String :=
  (BinaryValue.ofFloat x).twoPlaces

end BenchTables.Decimal
