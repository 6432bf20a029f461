import BenchTables.Csv.Scan
import BenchTables.Text.Utf8

/-!
# Writing comma-separated text

A cell is quoted when it holds a comma, a quote or a line end, and a quote inside it is doubled.
The closing quote is written with the comma or the line end that follows the cell.
A record ends with a line feed; one that would have no bytes is written as an empty quoted cell.
A record with another number of cells than the first one is refused at its line end, after its
cells were written: all of it stands there but the closing quote of its last cell.
-/

namespace BenchTables.Csv

def needsQuotes (cell : List UInt8) : Bool :=
  cell.any fun b => ByteKind.of b ≠ .plain

def doubleQuotes (cell : List UInt8) : List UInt8 :=
  cell.flatMap fun b => if b = quote then [quote, quote] else [b]

/-- A cell as it is written before it is known what follows it. -/
def openCell (cell : List UInt8) : List UInt8 :=
  if needsQuotes cell then quote :: doubleQuotes cell else cell

/-- What is written at the end of a cell, in front of the comma or the line end. -/
def closeCell (cell : List UInt8) : List UInt8 :=
  if needsQuotes cell then [quote] else []

def cellBytes (cell : List UInt8) : List UInt8 :=
  openCell cell ++ closeCell cell

def joinCells (cells : List (List UInt8)) : List UInt8 :=
  List.intercalate [comma] (cells.map cellBytes)

def recordBytes (cells : List (List UInt8)) : List UInt8 :=
  let body := joinCells cells
  (if body = [] then [quote, quote] else body) ++ [lineFeed]

/-- A record as it stands when it is refused at its line end. -/
def refusedBytes : List (List UInt8) → List UInt8
  | [] => []
  | [last] => openCell last
  | cell :: next :: rest => cellBytes cell ++ comma :: refusedBytes (next :: rest)

/-- Records of `width` cells as they are written, up to the first one of another length. -/
def writeRecords (width : Nat) : List (List (List UInt8)) → List UInt8 × Option Fault
  | [] => ([], none)
  | cells :: rest =>
    if cells.length = width then
      let (bytes, fault) := writeRecords width rest
      (recordBytes cells ++ bytes, fault)
    else (refusedBytes cells, some (.unequalLengths none width cells.length))

/-- A header and records as they are written, and the fault that ends the writing early. -/
def write (header : List String) (records : List (List String)) : List UInt8 × Option Fault :=
  writeRecords header.length ((header :: records).map (·.map Text.encode))

end BenchTables.Csv
