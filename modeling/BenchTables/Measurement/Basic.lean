import BenchTables.Decimal.Digits
import BenchTables.Measurement.Counter

/-!
# Measurements

One repetition of one configuration, as the benchmark records it, and what is derived from it: the
total bandwidth in kibibytes, the phase times in seconds and their total, and the identifier that
the repetitions of a configuration share. Sums of doubles run from left to right in column order;
the sum of none is the negative zero, which is neutral for addition.
-/

namespace BenchTables

/-- The protocol variant under evaluation. -/
inductive Variant where
  | noAuth
  /-- Authenticated, secure against malicious parties. -/
  | auth
deriving DecidableEq, Repr

namespace Variant

/-- Both variants, in the order of the tables. -/
def all : List Variant := [noAuth, auth]

/-- The variant of a run, by whether it was secure against malicious parties. -/
def ofMalicious (malicious : Bool) : Variant :=
  if malicious then auth else noAuth

/-- The name of a variant in files and messages. -/
def label : Variant → String
  | noAuth => "NoAuth"
  | auth => "Auth"

theorem mem_all (v : Variant) : v ∈ all := by
  cases v <;> simp [all]

end Variant

/-- One repetition of one configuration. -/
structure Measurement where
  /-- The entries of the database. -/
  dbSize : UInt64
  keyLength : UInt64
  valueLength : UInt64
  /-- Whether the run was secure against malicious parties. -/
  malicious : Bool
  /-- The requests of a client. -/
  rate : UInt64
  multiClient : Bool
  threads : UInt64
  /-- Bytes. -/
  bandwidth : PerCounter Float
  /-- Microseconds. -/
  latency : PerPhase Float
deriving DecidableEq

/-- The sum of doubles from left to right. -/
def sumFrom (start : Float) (xs : List Float) : Float :=
  xs.foldl (· + ·) start

/-- The sum of doubles from left to right; the sum of none is the negative zero. -/
def sum (xs : List Float) : Float :=
  sumFrom (-0.0) xs

namespace Measurement

def configColumns : List String :=
  ["db_size", "key_length", "value_length", "malicious", "rate", "multi_client", "num_threads"]

/-- The columns that a measurement table has to have. -/
def requiredColumns : List String :=
  configColumns ++ Counter.all.map Counter.column ++ Phase.all.map Phase.column

def variant (m : Measurement) : Variant :=
  .ofMalicious m.malicious

/-- The bytes of one counter. -/
def counter (m : Measurement) (c : Counter) : Float :=
  PerCounter.value m.bandwidth c

/-- The total bandwidth in kibibytes. -/
def bandwidthTotal (m : Measurement) : Float :=
  sum (Counter.totalTerms.map m.counter) / 1024.0

/-- The time of each phase in seconds. -/
def latencySeconds (m : Measurement) : PerPhase Float :=
  m.latency.map (· / 1000000.0)

/-- The time of all phases in seconds. -/
def latencyTotal (m : Measurement) : Float :=
  sum m.latency.toList / 1000000.0

/-- The word for a truth value in identifiers. -/
def boolWord (b : Bool) : String :=
  if b then "True" else "False"

/-- The identifier of the configuration: its columns, written one after the other. -/
def experimentId (m : Measurement) : String :=
  Decimal.wordText m.dbSize ++ Decimal.wordText m.keyLength ++ Decimal.wordText m.valueLength ++
    boolWord m.malicious ++ Decimal.wordText m.rate ++ boolWord m.multiClient ++
    Decimal.wordText m.threads

end Measurement

/-- The measurements whose rate is below the number of repetitions of a configuration. -/
def keepRates (repetitions : UInt32) (rows : List Measurement) : List Measurement :=
  rows.filter fun m => m.rate < repetitions.toUInt64

end BenchTables
