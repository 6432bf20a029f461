import BenchTables.Decimal.Fixed
import BenchTables.Measurement.Basic

/-!
# LaTeX markup

The building blocks of the published tables: commands with their arguments in braces, quantities
with a unit, cells that span rows, and powers of two.
-/

namespace BenchTables.Latex

def braced (s : String) : String :=
  "\x7b" ++ s ++ "\x7d"

def command (name : String) (arguments : List String) : String :=
  "\\" ++ name ++ String.join (arguments.map braced)

inductive QuantityUnit where
  | kibibyte
  | second
deriving DecidableEq, Repr

def QuantityUnit.markup : QuantityUnit → String
  | .kibibyte => "\\kibi\\byte"
  | .second => "\\second"

def quantity (x : Float) (unit : QuantityUnit) : String :=
  command "qty" [Decimal.twoPlaces x, unit.markup]

def spanning (rows : Nat) (content : String) : String :=
  command "multirow" [Decimal.natText rows, "*", content]

/-- A command without arguments, delimited by empty braces. -/
def labelCommand (name : String) : String :=
  command name [""]

/-- The power of two at or below a number of entries; there is none below zero entries. -/
def powerOfTwo? (n : UInt64) : Option String :=
  if n = 0 then none
  else some ("$2^" ++ braced (Decimal.natText n.toNat.log2) ++ "$")

def rowEnd : String := "\\\\"

/-- The commands that name the variants in the first column of the tables. -/
structure RowLabels where
  noAuth : String := "hprot"
  auth : String := "mprot"
deriving DecidableEq, Repr

def RowLabels.of (labels : RowLabels) : Variant → String
  | .noAuth => labels.noAuth
  | .auth => labels.auth

end BenchTables.Latex
