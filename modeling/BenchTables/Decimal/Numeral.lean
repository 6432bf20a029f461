import BenchTables.Decimal.Digits

/-!
# Reading numerals

Two kinds of numeral are read from cells: unsigned integers of 64 bits, and decimal numbers that
are rounded once to the nearest double. Each reader takes the whole text or says what is wrong
with it. `Numeral` is the exact number that a decimal text denotes, before any rounding.
-/

namespace BenchTables.Decimal

inductive IntegerFault where
  | empty
  | invalidDigit
  | tooLarge
deriving DecidableEq, Repr

def IntegerFault.message : IntegerFault → String
  | .empty => "cannot parse integer from empty string"
  | .invalidDigit => "invalid digit found in string"
  | .tooLarge => "number too large to fit in target type"

/-- One more digit of an unsigned integer, most significant first. A character that is no digit
is reported before the number is found to be too large. -/
def nextDigit (base : Nat) (n : Nat) (c : Char) : Except IntegerFault Nat :=
  match digitValue? base c with
  | none => .error .invalidDigit
  | some d => if base * n + d < UInt64.size then .ok (base * n + d) else .error .tooLarge

def readWord (base : Nat) (text : List Char) : Except IntegerFault UInt64 :=
  match text with
  | [] => .error .empty
  -- A sign alone is a text with a wrong digit, not an empty one.
  | ['+'] => .error .invalidDigit
  | '+' :: ds => (ds.foldlM (nextDigit base) 0).map UInt64.ofNat
  | ds => (ds.foldlM (nextDigit base) 0).map UInt64.ofNat

/-- The decimal number `coefficient * 10 ^ exponent`, with a sign. -/
structure Numeral where
  negative : Bool
  coefficient : Nat
  exponent : Int
deriving DecidableEq, Repr

namespace Numeral

/-- The sign a text begins with, plus if it begins with none, and the text after it. -/
def takeSign : List Char → Bool × List Char
  | '-' :: rest => (true, rest)
  | '+' :: rest => (false, rest)
  | text => (false, text)

def readExponent? : List Char → Option Int
  | [] => some 0
  | c :: rest =>
    if c = 'e' ∨ c = 'E' then
      let (negative, ds) := takeSign rest
      if ds ≠ [] ∧ ds.all isDigit then
        some (if negative then -(digitsValue ds : Int) else digitsValue ds)
      else none
    else none

/-- The digits after a point, if the text begins with one, and the text after them. -/
def takeFraction : List Char → List Char × List Char
  | '.' :: rest => (rest.takeWhile isDigit, rest.dropWhile isDigit)
  | text => ([], text)

/-- A numeral without its sign: digits with at most one point among them, at least one digit,
and an optional exponent. -/
def readUnsigned? (negative : Bool) (text : List Char) : Option Numeral :=
  let whole := text.takeWhile isDigit
  let (fraction, rest) := takeFraction (text.dropWhile isDigit)
  if whole = [] ∧ fraction = [] then none
  else (readExponent? rest).map fun e =>
    ⟨negative, digitsValue (whole ++ fraction), e - fraction.length⟩

def read? (text : List Char) : Option Numeral :=
  let (negative, rest) := takeSign text
  readUnsigned? negative rest

/-- The double nearest to a numeral, an exact half going to the even significand. -/
def toFloat (n : Numeral) : Float :=
  let magnitude :=
    if 0 ≤ n.exponent then Float.ofScientific n.coefficient false n.exponent.toNat
    else Float.ofScientific n.coefficient true (-n.exponent).toNat
  if n.negative then -magnitude else magnitude

end Numeral

inductive NumberFault where
  | empty
  | invalid
deriving DecidableEq, Repr

def NumberFault.message : NumberFault → String
  | .empty => "cannot parse float from empty string"
  | .invalid => "invalid float literal"

/-- The double that a name such as `inf` or `NaN` stands for, in any case of its letters. -/
def namedNumber? (text : List Char) : Option Float :=
  let (negative, rest) := Numeral.takeSign text
  let name := String.ofList (rest.map Char.toLower)
  if name = "inf" ∨ name = "infinity" then some (if negative then -1.0 / 0.0 else 1.0 / 0.0)
  else if name = "nan" then some (0.0 / 0.0)
  else none

def readFloat (text : List Char) : Except NumberFault Float :=
  if text = [] then .error .empty
  else match Numeral.read? text with
    | some n => .ok n.toFloat
    | none => match namedNumber? text with
      | some x => .ok x
      | none => .error .invalid

end BenchTables.Decimal
