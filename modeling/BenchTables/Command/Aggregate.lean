import BenchTables.Command.Plan
import BenchTables.Condensed.Kind
import BenchTables.Condensed.Tables
import BenchTables.Measurement.Reader
import BenchTables.Table.File

/-!
# Aggregating

Aggregating reads a measurement table, drops the rates beyond the repetitions of a configuration,
condenses what is left and writes the tables: bandwidth, then multi-client round trips, then
single-client ones if they are asked for, each for both variants.
-/

namespace BenchTables

open Files

inductive AggregateError where
  | table (error : TableError)
  | condense (error : CondenseError)
  /-- The number of repetitions is zero, which would drop every row. -/
  | noRepetitions
deriving DecidableEq, Repr

def CondenseError.message : CondenseError → String
  | .zeroRate id =>
    "Experiment '" ++ id ++ "' has rate 0, cannot normalize bandwidth per request"

def AggregateError.message : AggregateError → String
  | .table error => "CSV error: " ++ error.message
  | .condense error => error.message
  | .noRepetitions => "Repetition count must be at least 1"

/-- The repetitions of a configuration that the benchmark makes. -/
def defaultRepetitions : UInt32 := 20

/-- What aggregating is asked to do. -/
structure Aggregation where
  /-- Rates from this number on are dropped. -/
  repetitions : UInt32 := defaultRepetitions
  /-- Whether the single-client round-trip tables are written. -/
  singleClient : Bool := false
deriving DecidableEq, Repr

structure Aggregated where
  inputRows : Nat
  keptRows : Nat
  tables : TableSet
  files : List Output

def tableOutput {n : Nat} (schema : Schema n) (path : String) (rows : List (CondensedRow n)) :
    Output :=
  ⟨path, (Csv.write schema.header (rows.map CondensedRow.cells)).1⟩

namespace TableSet

def output (tables : TableSet) (stem : String) (kind : TableKind) : Output :=
  match kind with
  | .bandwidth v => tableOutput .bandwidth (kind.path stem) (tables.of v).bandwidth
  | .multiClient v => tableOutput .latency (kind.path stem) (tables.of v).multiClient
  | .singleClient v => tableOutput .latency (kind.path stem) (tables.of v).singleClient

end TableSet

def writtenKinds (singleClient : Bool) : List TableKind :=
  Variant.all.map .bandwidth ++ Variant.all.map .multiClient ++
    if singleClient then Variant.all.map .singleClient else []

def savedEntry (path : String) : LogEntry :=
  .success ("💾 " ++ path)

/-- What aggregating makes of a measurement table. -/
def aggregatePlan (options : Aggregation) (input stem : String)
    (read : String → Except ReadFailure (List UInt8)) :
    Traced AggregateError (Delivery AggregateError Aggregated) := do
  -- This is refused before the table is opened.
  if options.repetitions = 0 then Traced.silent (.error .noRepetitions)
  Traced.note (.info ("📖 Reading raw measurements: " ++ input))
  let bytes ← Traced.silent ((tableBytes input (read input)).mapError .table)
  let rows ← Traced.silent ((Measurement.readTable input bytes).mapError .table)
  Traced.note (.success s!"Read {rows.length} rows")
  let kept := keepRates options.repetitions rows
  let dropped := rows.length - kept.length
  if 0 < dropped then
    Traced.note <| .info <|
      s!"Dropped {dropped} rows with rate above {options.repetitions.toNat - 1}"
  let tables ← (condense kept).mapError .condense
  let files := (writtenKinds options.singleClient).map (tables.output stem)
  return {
    files
    refused := fun output failure => .table (.ofWrite output.path output.content.length failure)
    closing := files.map fun output => savedEntry output.path
    result := ⟨rows.length, kept.length, tables, files⟩ }

/-- Aggregates the measurement table at `input` into the tables named by `stem`. -/
def aggregate (options : Aggregation) (input stem : String) (tree : FileTree) :
    FileTree × Traced AggregateError Aggregated :=
  Plan.carryOut (aggregatePlan options input stem tree.read) tree

end BenchTables
