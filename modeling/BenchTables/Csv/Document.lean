import BenchTables.Csv.Scan
import BenchTables.Text.Blank
import BenchTables.Text.Utf8

/-!
# Comma-separated documents

A document is a header and records of as many cells. Every cell is a text without white space at
its ends. A record that has another number of cells, or a cell that is no UTF-8, stands in the
document as a fault, so that whoever reads the records in order meets the first fault where it is.
-/

namespace BenchTables.Csv

structure Record where
  position : Position
  cells : List String
deriving DecidableEq, Repr

structure Document where
  header : List String
  records : List (Except Fault Record)

/-- The texts of cells, or the fault of the first cell that is no UTF-8. The first cell given is
the one at index `field` of the record at position `p`. -/
def decodeCells (p : Position) (field : Nat) : List (List UInt8) → Except Fault (List String)
  | [] => .ok []
  | cell :: rest =>
    match Text.decode cell with
    | .error offset => .error (.invalidUtf8 p field offset)
    | .ok text => (decodeCells p (field + 1) rest).map (Text.trim text :: ·)

def checkRecord (width : Nat) (raw : RawRecord) : Except Fault Record :=
  -- Bytes are trimmed before they are decoded, so offsets count from the trimmed start.
  if raw.cells.length = width then
    (decodeCells raw.start 0 (raw.cells.map (Text.strip Text.isBlankByte))).map (⟨raw.start, ·⟩)
  else .error (.unequalLengths raw.start width raw.cells.length)

def Document.ofRaw : List RawRecord → Except Fault Document
  | [] => .ok ⟨[], []⟩
  | head :: rest =>
    (decodeCells head.start 0 head.cells).map fun header =>
      ⟨header, rest.map (checkRecord head.cells.length)⟩

/-- The document that bytes are. Only a header that is no UTF-8 is a fault of the document. -/
def Document.read (bytes : List UInt8) : Except Fault Document :=
  Document.ofRaw (cut bytes)

end BenchTables.Csv
