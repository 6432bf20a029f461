import BenchTables.Command.Aggregate
import BenchTables.Condensed.Reader
import BenchTables.Latex.RoundTrip

/-!
# Rendering

Rendering reads the bandwidth and the multi-client round-trip tables of both variants and writes
the two LaTeX tables. Nothing is written unless both can be made.
-/

namespace BenchTables

open Files

inductive RenderError where
  | table (error : TableError)
  | roundTrip (error : Latex.RoundTripError)
  | cannotWrite (path : String) (cause : Failure)
deriving DecidableEq, Repr

def RenderError.message : RenderError → String
  | .table error => "CSV error: " ++ error.message
  | .roundTrip error => error.message
  | .cannotWrite path cause => "Cannot write '" ++ path ++ "': " ++ cause.message

structure Rendered where
  files : List Output

def readCondensed {n : Nat} (schema : Schema n) (path : String)
    (read : String → Except ReadFailure (List UInt8)) :
    Traced RenderError (List (CondensedRow n)) :=
  Traced.silent <| Except.mapError .table do
    let bytes ← tableBytes path (read path)
    CondensedRow.readTable schema path bytes

def renderedKinds : List TableKind :=
  Variant.all.map .bandwidth ++ Variant.all.map .multiClient

def renderPlan (labels : Latex.RowLabels) (input stem : String)
    (read : String → Except ReadFailure (List UInt8)) :
    Traced RenderError (Delivery RenderError Rendered) := do
  Traced.note (.info ("📖 Reading condensed tables: " ++ input ++ "_*.csv"))
  let bandwidthNoAuth ← readCondensed .bandwidth (TableKind.path (.bandwidth .noAuth) input) read
  let bandwidthAuth ← readCondensed .bandwidth (TableKind.path (.bandwidth .auth) input) read
  let latencyNoAuth ← readCondensed .latency (TableKind.path (.multiClient .noAuth) input) read
  let latencyAuth ← readCondensed .latency (TableKind.path (.multiClient .auth) input) read
  Traced.note <| .success <|
    s!"Bandwidth rows: {bandwidthNoAuth.length} / {bandwidthAuth.length}, " ++
      s!"round-trip rows: {latencyNoAuth.length} / {latencyAuth.length}"
  let bandwidth := Latex.bandwidthTable labels bandwidthNoAuth bandwidthAuth
  let roundTrip ← Traced.silent
    ((Latex.roundTripTable labels latencyNoAuth latencyAuth).mapError .roundTrip)
  let files := [
    Output.mk (suffixed stem "_bw.tex") (Text.encode bandwidth),
    Output.mk (suffixed stem "_rt.tex") (Text.encode roundTrip)]
  return {
    files
    refused := fun output failure => .cannotWrite output.path failure.cause
    closing := files.map fun output => savedEntry output.path
    result := ⟨files⟩ }

/-- Renders the condensed tables named by `input` into the LaTeX tables named by `stem`. -/
def render (labels : Latex.RowLabels) (input stem : String) (tree : FileTree) :
    FileTree × Traced RenderError Rendered :=
  Plan.carryOut (renderPlan labels input stem tree.read) tree

end BenchTables
