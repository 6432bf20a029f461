import BenchTables.Table.Error

/-!
# Columns of a header

A table is read by the names of its columns. Of two columns with one name the first counts, and a
header that lacks required columns is refused with the list of all of them.
-/

namespace BenchTables

/-- The required columns that a header lacks, in the order in which they are required. -/
def missingColumns (header required : List String) : List String :=
  required.filter fun column => !header.contains column

/-- The place of each required column in a header, or the columns that the header lacks. -/
def locateColumns (source : String) (header required : List String) :
    Except TableError (List (String × Nat)) :=
  let missing := missingColumns header required
  if missing = [] then .ok (required.map fun column => (column, header.idxOf column))
  else .error (.missingColumns source missing)

/-- The cell under the first column of a name; empty where there is none. -/
def cellUnder (header cells : List String) (column : String) : String :=
  cells.getD (header.idxOf column) ""

/-- A header passes exactly when it has every required column. -/
theorem locateColumns_isOk_iff (source : String) (header required : List String) :
    (locateColumns source header required).isOk ↔ ∀ column ∈ required, column ∈ header := by
  simp only [locateColumns]
  split
  · rename_i h
    simpa [missingColumns, Except.isOk, Except.toBool] using h
  · rename_i h
    simpa [missingColumns, Except.isOk, Except.toBool] using h

end BenchTables
