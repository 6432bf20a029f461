import BenchTables.Csv.Fault

/-!
# Errors of tables in files

Why a table cannot be read from a file or written to one. Every cause has one wording.
-/

namespace BenchTables

inductive TableError where
  | cannotOpen (path : String) (cause : Files.Failure)
  | cannotCreate (path : String) (cause : Files.Failure)
  /-- The text of the table is at fault. -/
  | malformed (fault : Csv.Fault)
  /-- The last bytes of the table cannot be written. -/
  | cannotFinish (cause : Files.Failure)
  | missingColumns (path : String) (columns : List String)
  | invalidValue (line : Nat) (column value expectation : String)
deriving DecidableEq, Repr

def TableError.message : TableError → String
  | .cannotOpen path cause => "Cannot open '" ++ path ++ "': " ++ cause.message
  | .cannotCreate path cause => "Cannot create '" ++ path ++ "': " ++ cause.message
  | .malformed fault => "Invalid CSV format: " ++ fault.message
  | .cannotFinish cause => "IO error: " ++ cause.message
  | .missingColumns path columns =>
    "'" ++ path ++ "' is missing required columns: " ++ String.intercalate ", " columns
  | .invalidValue line column value expectation =>
    s!"Line {line}, column '" ++ column ++ "' (value '" ++ value ++ "'): " ++ expectation

end BenchTables
