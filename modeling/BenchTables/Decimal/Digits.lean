/-!
# Decimal digits

The digits of a natural number without superfluous zeros, and the number that a list of digits
stands for. `alignRight` sets a text flush right in a column of a given width.
-/

namespace BenchTables.Decimal

/-- The decimal digits of a number, most significant first; zero is the single digit `0`. -/
def digits (n : Nat) : List Char :=
  Nat.toDigits 10 n

def natText (n : Nat) : String :=
  String.ofList (digits n)

def wordText (n : UInt64) : String :=
  natText n.toNat

/-- The value of a digit in a base up to sixteen; letters count from ten in either case. -/
def digitValue? (base : Nat) (c : Char) : Option Nat :=
  let value :=
    if '0' ≤ c ∧ c ≤ '9' then some (c.toNat - '0'.toNat)
    else if 'a' ≤ c ∧ c ≤ 'f' then some (c.toNat - 'a'.toNat + 10)
    else if 'A' ≤ c ∧ c ≤ 'F' then some (c.toNat - 'A'.toNat + 10)
    else none
  value.filter (· < base)

def isDigit (c : Char) : Bool :=
  '0' ≤ c ∧ c ≤ '9'

def digitsValue (ds : List Char) : Nat :=
  ds.foldl (fun n c => 10 * n + (c.toNat - '0'.toNat)) 0

/-- A text flush right in a column of `width` characters; a longer text stays as it is. -/
def alignRight (width : Nat) (text : String) : String :=
  String.ofList (List.replicate (width - text.length) ' ') ++ text

@[simp] theorem natText_toList (n : Nat) : (natText n).toList = digits n := by
  simp [natText]

end BenchTables.Decimal
