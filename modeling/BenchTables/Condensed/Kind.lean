import BenchTables.Files.Path
import BenchTables.Measurement.Basic

/-!
# The kinds of condensed tables

Three kinds of table are made for each variant. A table is kept in a file whose name is a common
stem with the suffix of the table appended to it as it stands.
-/

namespace BenchTables

inductive TableKind where
  /-- Bandwidth of single clients, per request. -/
  | bandwidth (variant : Variant)
  /-- Round-trip times of multiple clients. -/
  | multiClient (variant : Variant)
  /-- Round-trip times of single clients at rate one. -/
  | singleClient (variant : Variant)
deriving DecidableEq, Repr

namespace TableKind

/-- What is appended to the stem to name the file of a table. -/
def suffix : TableKind → String
  | .bandwidth v => "_BW_" ++ v.label ++ ".csv"
  | .multiClient v => "_RT_Multi_" ++ v.label ++ ".csv"
  | .singleClient v => "_RT_Single_" ++ v.label ++ ".csv"

def path (kind : TableKind) (stem : String) : String :=
  Files.suffixed stem kind.suffix

end TableKind

end BenchTables
