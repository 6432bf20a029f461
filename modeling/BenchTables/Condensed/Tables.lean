import BenchTables.Condensed.Row
import BenchTables.Experiment.Group
import BenchTables.Log.Traced

/-!
# Condensing measurements

The experiments of single clients make the bandwidth table of their variant and, at rate one, its
single-client round-trip table; those of multiple clients make its multi-client round-trip table.
Rows are sorted by the mean size of the database, bandwidth rows by the mean rate after that, and
rows that tie keep the order of their identifiers. Bandwidth per request does not exist at rate
zero, so such an experiment is refused.
-/

namespace BenchTables

inductive CondenseError where
  | zeroRate (id : String)
deriving DecidableEq, Repr

def signBit : Nat := 0x8000000000000000

/-- A number whose order is the total order of doubles: negative numbers and the negative zero
below the positive zero, numbers that are none at the ends. -/
def totalOrderKey (x : Float) : Int :=
  let bits := x.toBits.toNat
  -- With the sign bit set, greater magnitudes come earlier.
  if bits < signBit then bits else (signBit : Int) - 1 - bits

def totalLE (x y : Float) : Bool :=
  totalOrderKey x ≤ totalOrderKey y

namespace Experiment

def sizeLE (a b : Experiment) : Bool :=
  totalLE a.dbSize b.dbSize

/-- Whether an experiment comes no later than another by the mean size of its database and, at
equal sizes, the mean rate. -/
def sizeRateLE (a b : Experiment) : Bool :=
  if totalOrderKey a.dbSize = totalOrderKey b.dbSize then totalLE a.rate b.rate
  else totalLE a.dbSize b.dbSize

def bandwidthRow (e : Experiment) : Except CondenseError BandwidthRow :=
  if e.rate == 0.0 then .error (.zeroRate e.id)
  else .ok ⟨e.id, e.dbSizeEntries, e.rateRequests, #v[e.bandwidthTotal, e.bandwidthTotal / e.rate]⟩

def latencyRow (e : Experiment) : LatencyRow :=
  ⟨e.id, e.dbSizeEntries, e.rateRequests, e.latency.push e.latencyTotal⟩

end Experiment

def bandwidthRows (rows : List Measurement) : Except CondenseError (List BandwidthRow) :=
  ((experiments rows).mergeSort Experiment.sizeRateLE).mapM Experiment.bandwidthRow

def latencyRows (rows : List Measurement) : List LatencyRow :=
  ((experiments rows).mergeSort Experiment.sizeLE).map Experiment.latencyRow

structure VariantTables where
  bandwidth : List BandwidthRow
  multiClient : List LatencyRow
  singleClient : List LatencyRow
deriving DecidableEq

structure TableSet where
  noAuth : VariantTables
  auth : VariantTables
deriving DecidableEq

def TableSet.of (tables : TableSet) : Variant → VariantTables
  | .noAuth => tables.noAuth
  | .auth => tables.auth

def select (variant : Variant) (multiClient : Bool) (rows : List Measurement) :
    List Measurement :=
  rows.filter fun m => m.variant = variant ∧ m.multiClient = multiClient

namespace Condense

/-- What is reported of a table: how many experiments it has. -/
def tableEntry (title : String) (size : Nat) : LogEntry :=
  if size = 0 then .warning (title ++ ": no experiments")
  else .success (title ++ s!": {size} experiments")

def bandwidthEntry (row : BandwidthRow) : LogEntry :=
  .detail <| "db_size " ++ Decimal.alignRight 8 (Decimal.wordText row.dbSize) ++ "  rate " ++
    Decimal.alignRight 3 (Decimal.wordText row.rate) ++ "  " ++
    Decimal.twoPlaces (BandwidthRow.perRequest row) ++ " KiB"

def latencyEntry (row : LatencyRow) : LogEntry :=
  let times := Phase.all.map fun p =>
    p.column ++ " " ++ Decimal.twoPlaces (LatencyRow.phase row p)
  .detail <| "db_size " ++ Decimal.alignRight 8 (Decimal.wordText row.dbSize) ++ "  " ++
    String.intercalate "  " times

def variantTables (rows : List Measurement) (variant : Variant) :
    Traced CondenseError VariantTables := do
  let single := select variant false rows
  let multi := select variant true rows
  Traced.note <| .info <| variant.label ++
    s!": {single.length} single-client rows, {multi.length} multi-client rows"
  -- A refused experiment ends the report here.
  let bandwidth ← Traced.silent (bandwidthRows single)
  Traced.note <| tableEntry ("Bandwidth (KiB per request) / " ++ variant.label) bandwidth.length
  Traced.report (bandwidth.map bandwidthEntry)
  let multiClient := latencyRows multi
  Traced.note <|
    tableEntry ("Round trip (s) / multi-client / " ++ variant.label) multiClient.length
  let singleClient := latencyRows (single.filter fun m => m.rate = 1)
  Traced.note <|
    tableEntry ("Round trip (s) / single-client rate 1 / " ++ variant.label) singleClient.length
  Traced.report (singleClient.map latencyEntry)
  return { bandwidth, multiClient, singleClient }

end Condense

def condense (rows : List Measurement) : Traced CondenseError TableSet := do
  let noAuth ← Condense.variantTables rows .noAuth
  let auth ← Condense.variantTables rows .auth
  return { noAuth, auth }

end BenchTables
