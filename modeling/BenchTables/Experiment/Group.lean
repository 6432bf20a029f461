import BenchTables.Decimal.BinaryValue
import BenchTables.Measurement.Basic

/-!
# Experiments

The measurements with one identifier are repetitions of one experiment, and each of its figures is
their mean. `Tally` holds the running sums of one experiment, `Ledger` the tallies of all of them
in ascending order of their identifiers; measurements are entered one at a time. An experiment
takes what its rows share from the first of them.
-/

namespace BenchTables

structure Experiment where
  id : String
  variant : Variant
  multiClient : Bool
  keyLength : UInt64
  valueLength : UInt64
  threads : UInt64
  repetitions : Nat
  dbSize : Float
  rate : Float
  /-- Kibibytes. -/
  bandwidthTotal : Float
  /-- Seconds. -/
  latency : PerPhase Float
  /-- Seconds. -/
  latencyTotal : Float
deriving DecidableEq

namespace Experiment

def dbSizeEntries (e : Experiment) : UInt64 :=
  Decimal.nearestUInt64 e.dbSize

def rateRequests (e : Experiment) : UInt64 :=
  Decimal.nearestUInt64 e.rate

end Experiment

structure Tally where
  variant : Variant
  multiClient : Bool
  keyLength : UInt64
  valueLength : UInt64
  threads : UInt64
  repetitions : Nat
  dbSize : Float
  rate : Float
  bandwidthTotal : Float
  latency : PerPhase Float
  latencyTotal : Float
deriving DecidableEq

namespace Tally

def start (first : Measurement) : Tally where
  variant := first.variant
  multiClient := first.multiClient
  keyLength := first.keyLength
  valueLength := first.valueLength
  threads := first.threads
  repetitions := 0
  -- Unlike `sum`, running sums start from the positive zero.
  dbSize := 0.0
  rate := 0.0
  bandwidthTotal := 0.0
  latency := Vector.replicate 6 0.0
  latencyTotal := 0.0

def add (t : Tally) (m : Measurement) : Tally :=
  { t with
    repetitions := t.repetitions + 1
    dbSize := t.dbSize + m.dbSize.toFloat
    rate := t.rate + m.rate.toFloat
    bandwidthTotal := t.bandwidthTotal + m.bandwidthTotal
    latency := t.latency.zipWith (· + ·) m.latencySeconds
    latencyTotal := t.latencyTotal + m.latencyTotal }

/-- The experiment whose measurements a tally has summed. -/
def mean (t : Tally) (id : String) : Experiment :=
  let n := Float.ofNat t.repetitions
  { id
    variant := t.variant
    multiClient := t.multiClient
    keyLength := t.keyLength
    valueLength := t.valueLength
    threads := t.threads
    repetitions := t.repetitions
    dbSize := t.dbSize / n
    rate := t.rate / n
    bandwidthTotal := t.bandwidthTotal / n
    latency := t.latency.map (· / n)
    latencyTotal := t.latencyTotal / n }

end Tally

abbrev Ledger := List (String × Tally)

namespace Ledger

def enter (id : String) (m : Measurement) : Ledger → Ledger
  | [] => [(id, (Tally.start m).add m)]
  | (key, tally) :: rest =>
    if id < key then (id, (Tally.start m).add m) :: (key, tally) :: rest
    else if id = key then (key, tally.add m) :: rest
    else (key, tally) :: enter id m rest

def enterAll (ledger : Ledger) (rows : List Measurement) : Ledger :=
  rows.foldl (fun l m => l.enter m.experimentId m) ledger

def experiments (ledger : Ledger) : List Experiment :=
  ledger.map fun (id, tally) => tally.mean id

end Ledger

def experiments (rows : List Measurement) : List Experiment :=
  (Ledger.enterAll [] rows).experiments

end BenchTables
