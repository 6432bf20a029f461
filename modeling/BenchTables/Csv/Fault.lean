import BenchTables.Decimal.Numeral
import BenchTables.Files.Failure

/-!
# Faults of comma-separated text

What can be wrong with a table as comma-separated text, each cause with the data its wording
needs. A `Position` says where the reader stood before it read the record at fault.
-/

namespace BenchTables.Csv

/-- How far a text has been read: the records read, one more than the line feeds passed, and the
bytes passed. -/
structure Position where
  record : Nat
  line : Nat
  byte : Nat
deriving DecidableEq, Repr

/-- The position before the first byte of a text. -/
def Position.start : Position := ⟨0, 1, 0⟩

inductive CellFault where
  | integer (fault : Decimal.IntegerFault)
  | number (fault : Decimal.NumberFault)
deriving DecidableEq, Repr

def CellFault.message : CellFault → String
  | .integer fault => fault.message
  | .number fault => fault.message

/-- What is wrong with a comma-separated text. -/
inductive Fault where
  /-- The text could not be read or written at all. -/
  | file (cause : Files.Failure)
  /-- A record has another number of cells than the first one. -/
  | unequalLengths (position : Option Position) (expected found : Nat)
  | invalidUtf8 (position : Position) (field offset : Nat)
  | invalidCell (position : Position) (field : Nat) (fault : CellFault)
  | duplicateField (position : Position) (name : String)
  | missingField (position : Position) (name : String)
deriving DecidableEq, Repr

/-- The place of a record, as faults of its cells name it. -/
def Position.text (p : Position) : String :=
  s!"record {p.record} (line: {p.line}, byte: {p.byte})"

def Fault.message : Fault → String
  | .file cause => cause.message
  | .unequalLengths position expected found =>
    let place := match position with
      | some p => p.text ++ ": "
      | none => ""
    "CSV error: " ++ place ++
      s!"found record with {found} fields, but the previous record has {expected} fields"
  | .invalidUtf8 p field offset =>
    s!"CSV parse error: record {p.record} (line {p.line}, field: {field}, byte: {p.byte}): " ++
      s!"invalid utf-8: invalid UTF-8 in field {field} near byte index {offset}"
  | .invalidCell p field fault =>
    "CSV deserialize error: " ++ p.text ++ s!": field {field}: " ++ fault.message
  | .duplicateField p name =>
    "CSV deserialize error: " ++ p.text ++ ": duplicate field `" ++ name ++ "`"
  | .missingField p name =>
    "CSV deserialize error: " ++ p.text ++ ": missing field `" ++ name ++ "`"

end BenchTables.Csv
