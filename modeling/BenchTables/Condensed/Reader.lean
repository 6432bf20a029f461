import BenchTables.Condensed.Row
import BenchTables.Csv.Document
import BenchTables.Decimal.Numeral
import BenchTables.Table.Columns

/-!
# Reading condensed tables

A record is read cell by cell from left to right, each under the name of its column. Columns of
other names are passed over, a known column that comes again is a fault, and so is a cell whose
text is no value of its column; the first fault is the one reported. Blank records are no
exception. What a table may lack is filled in: an empty identifier, a total of zero.
-/

namespace BenchTables

/-- The unsigned integer in a cell: decimal digits, or sixteenths after `0x`. -/
def readCountText (text : List Char) : Except Decimal.IntegerFault UInt64 :=
  match text with
  | '0' :: 'x' :: digits => Decimal.readWord 16 digits
  | _ => Decimal.readWord 10 text

structure Draft (n : Nat) where
  id : Option String
  dbSize : Option UInt64
  rate : Option UInt64
  quantities : Vector (Option Float) n

namespace Draft

def blank (n : Nat) : Draft n := ⟨none, none, none, Vector.replicate n none⟩

def word (p : Csv.Position) (field : Nat) (text : String) : Except Csv.Fault UInt64 :=
  (readCountText text.toList).mapError fun fault => .invalidCell p field (.integer fault)

def quantity (p : Csv.Position) (field : Nat) (text : String) : Except Csv.Fault Float :=
  (Decimal.readFloat text.toList).mapError fun fault => .invalidCell p field (.number fault)

def fill {n : Nat} (schema : Schema n) (p : Csv.Position) (d : Draft n) (field : Nat)
    (column text : String) : Except Csv.Fault (Draft n) :=
  if column = "EXPID" then
    if d.id.isSome then .error (.duplicateField p column)
    else .ok { d with id := some text }
  else if column = "db_size" then
    if d.dbSize.isSome then .error (.duplicateField p column)
    else (word p field text).map fun value => { d with dbSize := some value }
  else if column = "rate" then
    if d.rate.isSome then .error (.duplicateField p column)
    else (word p field text).map fun value => { d with rate := some value }
  else
    match schema.quantities.finIdxOf? column with
    | none => .ok d
    | some i =>
      if (d.quantities[i]).isSome then .error (.duplicateField p column)
      else (quantity p field text).map fun value =>
        { d with quantities := d.quantities.set i (some value) }

def fillFrom {n : Nat} (schema : Schema n) (p : Csv.Position) (d : Draft n) (field : Nat) :
    List (String × String) → Except Csv.Fault (Draft n)
  | [] => .ok d
  | (column, text) :: rest => do
    let filled ← d.fill schema p field column text
    filled.fillFrom schema p (field + 1) rest

/-- The quantity at an index, where the total may be lacking. -/
def settle {n : Nat} (schema : Schema n) (p : Csv.Position) (d : Draft n) (i : Fin n) :
    Except Csv.Fault Float :=
  match d.quantities[i] with
  | some value => .ok value
  | none => if i = schema.total then .ok 0.0 else .error (.missingField p schema.quantities[i])

def finish {n : Nat} (schema : Schema n) (p : Csv.Position) (d : Draft n) :
    Except Csv.Fault (CondensedRow n) := do
  let dbSize ← d.dbSize.elim (.error (.missingField p "db_size")) .ok
  let rate ← d.rate.elim (.error (.missingField p "rate")) .ok
  let quantities ← (Vector.finRange n).mapM (d.settle schema p)
  return ⟨d.id.getD "", dbSize, rate, quantities⟩

end Draft

namespace CondensedRow

def ofRecord {n : Nat} (schema : Schema n) (header : List String) (record : Csv.Record) :
    Except Csv.Fault (CondensedRow n) := do
  let draft ← (Draft.blank n).fillFrom schema record.position 0 (header.zip record.cells)
  draft.finish schema record.position

def ofDocument {n : Nat} (schema : Schema n) (source : String) (doc : Csv.Document) :
    Except TableError (List (CondensedRow n)) := do
  let _ ← locateColumns source doc.header schema.required
  doc.records.mapM fun entry => (entry.bind (ofRecord schema doc.header)).mapError .malformed

/-- The rows in the bytes of a file; `source` names the file in errors. -/
def readTable {n : Nat} (schema : Schema n) (source : String) (bytes : List UInt8) :
    Except TableError (List (CondensedRow n)) := do
  let doc ← (Csv.Document.read bytes).mapError .malformed
  ofDocument schema source doc

end CondensedRow

end BenchTables
