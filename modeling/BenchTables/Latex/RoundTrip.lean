import BenchTables.Condensed.Row
import BenchTables.Latex.Bandwidth

/-!
# The round-trip table

The table has a block per size of the database, and in a block a line per rate and variant; sizes
and rates are those of the authenticated rows, both ascending. Each line shows the retrieval times
of its row. The notification times are shared by the lines of a block: they stand once, on its
first line, in cells that span the block. `blocks` is that arrangement, or the first thing that
keeps it from being made, and `roundTripTable` its text.
-/

namespace BenchTables.Latex

inductive RoundTripError where
  | emptyDatabase
  | missingMeasurement (variant : Variant) (dbSize rate : UInt64)
deriving DecidableEq, Repr

def RoundTripError.message : RoundTripError → String
  | .emptyDatabase => "Invalid database size 0: expected a positive number of entries"
  | .missingMeasurement variant dbSize rate =>
    "No " ++ variant.label ++ " measurement for db_size " ++ Decimal.wordText dbSize ++
      " at rate " ++ Decimal.wordText rate

/-- The number of rates and variants that the experiments are designed for. Shared times are
divided by it, however many rows there are. -/
def notifyDivisor : Float := 6.0

/-- The notification times that the lines of a block share, in seconds. -/
structure SharedTimes where
  sendNotify : Float
  recvGetNotified : Float
  recvNotify : Float
  sendGetNotified : Float
deriving DecidableEq

/-- The sum of a phase over the rows of a size, divided by the number of designed rows. -/
def sharedPhase (rows : List LatencyRow) (dbSize : UInt64) (p : Phase) : Float :=
  sum ((rows.filter fun row => row.dbSize = dbSize).map (LatencyRow.phase · p)) / notifyDivisor

def SharedTimes.at (noAuth auth : List LatencyRow) (dbSize : UInt64) : SharedTimes :=
  let phase := sharedPhase (noAuth ++ auth) dbSize
  { sendNotify := phase .sendNotify
    recvGetNotified := phase .recvGetNotified
    recvNotify := phase .recvNotify
    sendGetNotified := phase .sendGetNotified }

structure RoundTripLine where
  variant : Variant
  rate : UInt64
  row : LatencyRow
deriving DecidableEq

structure RoundTripBlock where
  /-- The power of two that labels the block. -/
  label : String
  shared : SharedTimes
  lines : List RoundTripLine
deriving DecidableEq

def rowAt? (rows : List LatencyRow) (dbSize rate : UInt64) : Option LatencyRow :=
  rows.find? fun row => row.dbSize = dbSize ∧ row.rate = rate

def lineAt (rowsOf : Variant → List LatencyRow) (dbSize rate : UInt64) (variant : Variant) :
    Except RoundTripError RoundTripLine :=
  match rowAt? (rowsOf variant) dbSize rate with
  | some row => .ok ⟨variant, rate, row⟩
  | none => .error (.missingMeasurement variant dbSize rate)

def blockAt (noAuth auth : List LatencyRow) (rates : List UInt64) (dbSize : UInt64) :
    Except RoundTripError RoundTripBlock := do
  let rowsOf : Variant → List LatencyRow
    | .noAuth => noAuth
    | .auth => auth
  let label ← (powerOfTwo? dbSize).elim (.error .emptyDatabase) .ok
  let places := rates.flatMap fun rate => Variant.all.map (rate, ·)
  let lines ← places.mapM fun (rate, variant) => lineAt rowsOf dbSize rate variant
  return { label, shared := .at noAuth auth dbSize, lines }

def blocks (noAuth auth : List LatencyRow) : Except RoundTripError (List RoundTripBlock) :=
  let rates := distinctAscending (auth.map (·.rate))
  (distinctAscending (auth.map (·.dbSize))).mapM (blockAt noAuth auth rates)

def twoCells (first second : String) : String :=
  first ++ " & " ++ second

/-- The total time that a line shows. -/
def RoundTripLine.total (line : RoundTripLine) (shared : SharedTimes) : Float :=
  -- The order of the terms fixes how the sum is rounded.
  LatencyRow.phase line.row .sendRetrieval + LatencyRow.phase line.row .recvRetrieval +
    shared.sendNotify + shared.recvNotify

/-- The text of a line, given the cells of the notification times after sending and after
receiving. -/
def RoundTripLine.text (labels : RowLabels) (shared : SharedTimes) (sendCells recvCells : String)
    (line : RoundTripLine) : String :=
  let seconds := fun x => quantity x .second
  " & " ++ labelCommand (labels.of line.variant) ++
    " & " ++ Decimal.wordText line.rate ++
    " & " ++ seconds (LatencyRow.phase line.row .sendRetrieval) ++
    " & " ++ sendCells ++
    " & " ++ seconds (LatencyRow.phase line.row .recvRetrieval) ++
    " & " ++ recvCells ++
    " & " ++ command "textbf" [" " ++ seconds (line.total shared) ++ " "] ++ rowEnd ++ "\n"

/-- The lines of a block; the shared times stand on the first of them only. -/
def RoundTripBlock.lineTexts (labels : RowLabels) (block : RoundTripBlock) : List String :=
  let spanned := fun x => spanning block.lines.length (quantity x .second)
  let shared := block.shared
  match block.lines with
  | [] => []
  | first :: others =>
    first.text labels shared
        (twoCells (spanned shared.sendNotify) (spanned shared.recvGetNotified))
        (twoCells (spanned shared.recvNotify) (spanned shared.sendGetNotified)) ::
      others.map (RoundTripLine.text labels shared (twoCells "" "") (twoCells "" ""))

def RoundTripBlock.text (labels : RowLabels) (block : RoundTripBlock) : String :=
  spanning block.lines.length block.label ++ String.join (block.lineTexts labels) ++ "\\midrule\n"

def roundTripHead : String :=
  openTable "0.8" "0.86\\textwidth" "rlcrrrrrrr" ++ "\\toprule" ++
    "& & Rate & S-Retrieval & S-Notify & R-GetNotify & R-Retrieval & R-Notify & S-GetNotify & " ++
    command "textbf" ["Total"] ++ rowEnd ++ "\n\\midrule\n"

/-- The round-trip table of both variants. -/
def roundTripTable (labels : RowLabels) (noAuth auth : List LatencyRow) :
    Except RoundTripError String := do
  let made ← blocks noAuth auth
  return roundTripHead ++ String.join (made.map (RoundTripBlock.text labels)) ++ closeTable

end BenchTables.Latex
