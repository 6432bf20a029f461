import BenchTables.Command.Line

/-!
# Sessions

A session is a sequence of steps on one file tree: files are put there and taken away, tables are
read and written, commands and whole runs of the program are carried out. Its state is the tree
and whether progress is silenced; what a step prints to the log follows from the entries it
leaves. Runs of the program are quiet by their own arguments alone.
-/

namespace BenchTables

open Files

/-- One thing to do in a session. -/
inductive SessionStep where
  | putFile (path : String) (content : List UInt8)
  | makeDirectory (path : String)
  | removeFile (path : String)
  | listFiles
  | setQuiet (quiet : Bool)
  | readMeasurements (path : String)
  | readBandwidth (path : String)
  | readLatency (path : String)
  | writeTable (path : String) (header : List String) (records : List (List String))
  | inspect (repetitions : Option UInt32) (path : String)
  | inspectText (repetitions : Option UInt32) (path : String)
  | aggregate (options : Aggregation) (path stem : String)
  | render (labels : Latex.RowLabels) (path stem : String)
  | run (environment : List (String × String)) (arguments : List String)

/-- What a step gives back. -/
inductive SessionAnswer where
  | done
  | files (found : List (String × List UInt8))
  | quiet (state : Bool)
  | measurements (result : Except TableError (List Measurement))
  | bandwidth (result : Except TableError (List BandwidthRow))
  | latency (result : Except TableError (List LatencyRow))
  | written (result : Except TableError (List Output))
  | experiments (result : Except AggregateError (List Experiment))
  | text (result : Except AggregateError String)
  | aggregated (result : Except AggregateError Aggregated)
  | rendered (result : Except RenderError Rendered)
  | exited (exit : Exit)

/-- Where a session stands. -/
structure Session where
  tree : FileTree
  quiet : Bool

namespace Session

/-- A session in an empty directory that reports its progress. -/
def start : Session := ⟨.fresh, false⟩

/-- The place of a path in a session, whether or not anything is there. -/
def placeOf (path : String) : Place :=
  match Path.parse path with
  | .error _ => []
  | .ok parsed => parsed.parts.foldl FileTree.stepInto (FileTree.origin parsed)

/-- The measurements of the table at a path. -/
def measurementsAt (tree : FileTree) (path : String) : Except TableError (List Measurement) := do
  let bytes ← tableBytes path (tree.read path)
  Measurement.readTable path bytes

/-- The rows of the condensed table at a path. -/
def condensedAt {n : Nat} (schema : Schema n) (tree : FileTree) (path : String) :
    Except TableError (List (CondensedRow n)) := do
  let bytes ← tableBytes path (tree.read path)
  CondensedRow.readTable schema path bytes

/-- One step: the state after it, what it gives back and the log entries it leaves. -/
def act (tree : FileTree) : SessionStep → FileTree × SessionAnswer × List LogEntry
  | .putFile path content =>
    let place := placeOf path
    ((tree.makeDirectories place.dropLast).put place (.file content), .done, [])
  | .makeDirectory path => (tree.makeDirectories (placeOf path), .done, [])
  | .removeFile path => (tree.erase (placeOf path), .done, [])
  | .listFiles => (tree, .files tree.files, [])
  | .setQuiet quiet => (tree, .quiet quiet, [])
  | .readMeasurements path => (tree, .measurements (measurementsAt tree path), [])
  | .readBandwidth path => (tree, .bandwidth (condensedAt .bandwidth tree path), [])
  | .readLatency path => (tree, .latency (condensedAt .latency tree path), [])
  | .writeTable path header records =>
    let (after, result) := tree.writeTable path header records
    (after, .written (result.map fun () => [⟨path, (Csv.write header records).1⟩]), [])
  | .inspect repetitions path =>
    let done := BenchTables.inspect repetitions path tree
    (tree, .experiments done.outcome, done.log)
  | .inspectText repetitions path =>
    let done := BenchTables.inspectText repetitions path tree.read
    (tree, .text done.outcome, done.log)
  | .aggregate options path stem =>
    let (after, done) := BenchTables.aggregate options path stem tree
    (after, .aggregated done.outcome, done.log)
  | .render labels path stem =>
    let (after, done) := BenchTables.render labels path stem tree
    (after, .rendered done.outcome, done.log)
  | .run environment arguments =>
    let (after, exit) := runLine (.ofVariables environment) arguments tree
    (after, .exited exit, [])

/-- One step: the session after it, what it gives back and the log it prints. -/
def step (s : Session) (todo : SessionStep) : Session × SessionAnswer × String :=
  let (after, answer, entries) := act s.tree todo
  let quiet := match todo with
    | .setQuiet quiet => quiet
    | _ => s.quiet
  (⟨after, quiet⟩, answer, LogEntry.linesOf s.quiet entries)

/-- Steps in order: the session after them, and what each gives back and prints. -/
def run (s : Session) : List SessionStep → Session × List (SessionAnswer × String)
  | [] => (s, [])
  | todo :: rest =>
    let (next, answer, log) := s.step todo
    let (last, answers) := next.run rest
    (last, (answer, log) :: answers)

end Session

end BenchTables
