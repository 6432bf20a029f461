import BenchTables.Decimal.Shortest

/-!
# Doubles in JSON

A double is written with the fewest digits that read back as it. `NumberLayout` is what a format
decides beyond the digits; `jsonNumber` is the layout of reports: positional notation where the
first digit stands for a power of ten from -5 to 15, always with a decimal, and an exponent with
its sign otherwise.
-/

namespace BenchTables.Json

structure NumberLayout where
  /-- The least power of ten of a first digit written positionally. -/
  least : Int
  /-- The greatest power of ten of a first digit written positionally. -/
  greatest : Int
  /-- The mark before an exponent that is not negative. -/
  plusMark : String
  /-- The mark before a negative exponent. -/
  minusMark : String
  /-- What follows an integer written positionally. -/
  integerTail : String

def zeros (n : Nat) : String :=
  String.ofList (List.replicate n '0')

def NumberLayout.place (layout : NumberLayout) (digits : List Char) (leading : Int) : String :=
  let text := String.ofList digits
  if layout.least ≤ leading ∧ leading ≤ layout.greatest then
    if leading < 0 then "0." ++ zeros ((-leading).toNat - 1) ++ text
    else
      let whole := leading.toNat + 1
      if digits.length ≤ whole then text ++ zeros (whole - digits.length) ++ layout.integerTail
      else String.ofList (digits.take whole) ++ "." ++ String.ofList (digits.drop whole)
  else
    let mantissa := match digits with
      | first :: second :: rest => String.ofList (first :: '.' :: second :: rest)
      | _ => text
    let mark := if leading < 0 then layout.minusMark else layout.plusMark
    mantissa ++ mark ++ Decimal.natText leading.natAbs

def jsonNumber : NumberLayout where
  least := -5
  greatest := 15
  plusMark := "e+"
  minusMark := "e-"
  integerTail := ".0"

/-- The text of a binary value, by its shortest decimal; `null` for what is no finite number. -/
def NumberLayout.text (layout : NumberLayout) : Decimal.BinaryValue → String
  | .finite negative significand exponent =>
    let sign := if negative then "-" else ""
    if significand = 0 then sign ++ layout.place ['0'] 0
    else
      let s := Decimal.shortest significand exponent
      sign ++ layout.place (Decimal.digits s.coefficient) s.leading
  | _ => "null"

end BenchTables.Json
