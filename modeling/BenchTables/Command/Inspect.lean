import BenchTables.Command.Aggregate
import BenchTables.Experiment.Report

/-!
# Inspecting

Inspecting reads a measurement table, drops rates beyond the repetitions if a number of them is
given, and gives the experiments without writing anything; `inspectText` gives them as JSON.
-/

namespace BenchTables

open Files

def inspectRows (repetitions : Option UInt32) (input : String)
    (read : String → Except ReadFailure (List UInt8)) :
    Traced AggregateError (List Experiment) := do
  let bytes ← Traced.silent ((tableBytes input (read input)).mapError .table)
  let rows ← Traced.silent ((Measurement.readTable input bytes).mapError .table)
  let kept ← match repetitions with
    | none => pure rows
    | some n =>
      -- This is refused only after the table has been read.
      if n = 0 then Traced.silent (.error .noRepetitions)
      else pure (keepRates n rows)
  let found := experiments kept
  Traced.note (.success s!"{kept.length} rows in {found.length} experiments")
  return found

def inspect (repetitions : Option UInt32) (input : String) (tree : FileTree) :
    Traced AggregateError (List Experiment) :=
  inspectRows repetitions input tree.read

def inspectText (repetitions : Option UInt32) (input : String)
    (read : String → Except ReadFailure (List UInt8)) : Traced AggregateError String := do
  let found ← inspectRows repetitions input read
  return Json.pretty (Experiment.report found)

end BenchTables
