import BenchTables.Decimal.Fixed
import BenchTables.Measurement.Counter

/-!
# Condensed rows

A condensed table has one row per experiment: its identifier, the size of its database, its rate
and a few quantities. A `Schema` names the quantity columns and says which one is the total, the
only one that a table may lack. Bandwidth and round-trip tables are the two schemas; everything
that reads, writes or prints rows is written once for both.
-/

namespace BenchTables

structure Schema (n : Nat) where
  quantities : Vector String n
  /-- The total, which a table may lack. -/
  total : Fin n

structure CondensedRow (n : Nat) where
  id : String
  dbSize : UInt64
  rate : UInt64
  quantities : Vector Float n
deriving DecidableEq

namespace Schema

def keyColumns : List String := ["EXPID", "db_size", "rate"]

def header {n : Nat} (schema : Schema n) : List String :=
  keyColumns ++ schema.quantities.toList

/-- The columns that a table has to have to be read. -/
def required {n : Nat} (schema : Schema n) : List String :=
  ["db_size", "rate"] ++ schema.quantities.toList.eraseIdx schema.total

def bandwidth : Schema 2 where
  quantities := #v["BW_Total", "BW_Total_Norm"]
  total := 0

def latency : Schema 7 where
  quantities := (Phase.ordered.map Phase.column).push "RT_Total"
  total := 6

end Schema

namespace CondensedRow

/-- The cells of a row: integers bare, quantities with two decimals. -/
def cells {n : Nat} (row : CondensedRow n) : List String :=
  [row.id, Decimal.wordText row.dbSize, Decimal.wordText row.rate] ++
    row.quantities.toList.map Decimal.twoPlaces

theorem cells_length {n : Nat} (schema : Schema n) (row : CondensedRow n) :
    row.cells.length = schema.header.length := by
  simp [cells, Schema.header, Schema.keyColumns]

end CondensedRow

abbrev BandwidthRow := CondensedRow 2

/-- The mean bandwidth in kibibytes. -/
def BandwidthRow.total (row : BandwidthRow) : Float := row.quantities[0]

/-- The mean bandwidth per request in kibibytes. -/
def BandwidthRow.perRequest (row : BandwidthRow) : Float := row.quantities[1]

abbrev LatencyRow := CondensedRow 7

/-- The mean time of a phase in seconds. -/
def LatencyRow.phase (row : LatencyRow) (p : Phase) : Float := row.quantities[p.index.castSucc]

/-- The mean time of all phases in seconds. -/
def LatencyRow.total (row : LatencyRow) : Float := row.quantities[6]

end BenchTables
