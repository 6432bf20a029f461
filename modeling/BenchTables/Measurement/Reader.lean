import BenchTables.Csv.Document
import BenchTables.Decimal.BinaryValue
import BenchTables.Decimal.Numeral
import BenchTables.Measurement.Basic
import BenchTables.Table.Columns

/-!
# Reading measurements

A measurement table has its required columns in any order, among any others. Records whose cells
are all empty are passed over; of the others each gives one measurement, and the first record at
fault ends the reading. In a record the counters are read first, then the phases, then the columns
of the configuration, and the first cell at fault is the one reported.
-/

namespace BenchTables

/-- The number that a cell holds: any finite decimal number. -/
def readQuantity? (text : String) : Option Float :=
  match Decimal.readFloat text.toList with
  | .ok x => if x.isFinite then some x else none
  | .error _ => none

/-- The unsigned integer that a double is; `2 ^ 64` counts as the greatest of them. -/
def wordOfFloat? (x : Float) : Option UInt64 :=
  match (Decimal.BinaryValue.ofFloat x).toNat? with
  -- The doubles next to `2 ^ 64` are far from it, so no other value is brought down.
  | some n => if n ≤ UInt64.size then some (UInt64.ofNatClamp n) else none
  | none => none

/-- The unsigned integer that a cell holds, as an integer or as a decimal number. -/
def readCount? (text : String) : Option UInt64 :=
  match Decimal.readWord 10 text.toList with
  | .ok n => some n
  | .error _ =>
    match Decimal.readFloat text.toList with
    | .ok x => wordOfFloat? x
    | .error _ => none

/-- The truth value that a cell holds. -/
def readFlag? (text : String) : Option Bool :=
  if text ∈ ["true", "True", "TRUE", "1"] then some true
  else if text ∈ ["false", "False", "FALSE", "0"] then some false
  else none

namespace Measurement

/-- The value of the cell under a column, or the error that its text has no such value. -/
def readCell {α : Type} (header : List String) (record : Csv.Record) (read : String → Option α)
    (expectation column : String) : Except TableError α :=
  let text := cellUnder header record.cells column
  match read text with
  | some value => .ok value
  | none => .error (.invalidValue record.position.line column text expectation)

def readNumber (header : List String) (record : Csv.Record) : String → Except TableError Float :=
  readCell header record readQuantity? "expected a number"

def readInteger (header : List String) (record : Csv.Record) : String → Except TableError UInt64 :=
  readCell header record readCount? "expected a non-negative integer"

def readBool (header : List String) (record : Csv.Record) : String → Except TableError Bool :=
  readCell header record readFlag? "expected true or false"

def ofRecord (header : List String) (record : Csv.Record) : Except TableError Measurement := do
  let bandwidth ← Counter.ordered.mapM fun c => readNumber header record c.column
  let latency ← Phase.ordered.mapM fun p => readNumber header record p.column
  let dbSize ← readInteger header record "db_size"
  let keyLength ← readInteger header record "key_length"
  let valueLength ← readInteger header record "value_length"
  let malicious ← readBool header record "malicious"
  let rate ← readInteger header record "rate"
  let multiClient ← readBool header record "multi_client"
  let threads ← readInteger header record "num_threads"
  return {
    dbSize, keyLength, valueLength, malicious, rate, multiClient, threads, bandwidth, latency }

/-- Whether a record holds nothing. -/
def isBlankRecord (record : Csv.Record) : Bool :=
  record.cells.all (· = "")

/-- The measurements in records, up to the first one at fault. -/
def ofRecords (header : List String) :
    List (Except Csv.Fault Csv.Record) → Except TableError (List Measurement)
  | [] => .ok []
  | .error fault :: _ => .error (.malformed fault)
  | .ok record :: rest =>
    if isBlankRecord record then ofRecords header rest
    else do
      let row ← ofRecord header record
      let rows ← ofRecords header rest
      return row :: rows

def ofDocument (source : String) (doc : Csv.Document) : Except TableError (List Measurement) := do
  let _ ← locateColumns source doc.header requiredColumns
  ofRecords doc.header doc.records

/-- The measurements in the bytes of a file; `source` names the file in errors. -/
def readTable (source : String) (bytes : List UInt8) : Except TableError (List Measurement) := do
  let doc ← (Csv.Document.read bytes).mapError .malformed
  ofDocument source doc

end Measurement

end BenchTables
