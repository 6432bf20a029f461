import BenchTables.Csv.Fault
import BenchTables.Text.Utf8

/-!
# Cutting bytes into records

Comma-separated text is cut one byte at a time. A quote opens a quoted cell only at the start of
the cell; inside, commas and line ends are plain and a doubled quote stands for one. What follows
a closing quote belongs to the cell as it stands. A line feed or a carriage return ends a record,
so the second byte of a two-byte line end is left to the empty lines before the next record, and
those are passed over. A quoted cell that is never closed runs to the end of the text.
-/

namespace BenchTables.Csv

def comma : UInt8 := 0x2C

def quote : UInt8 := 0x22

def lineFeed : UInt8 := 0x0A

def carriageReturn : UInt8 := 0x0D

inductive ByteKind where
  | quote
  | comma
  | lineEnd
  | plain
deriving DecidableEq, Repr

def ByteKind.of (b : UInt8) : ByteKind :=
  if b = Csv.quote then .quote
  else if b = Csv.comma then .comma
  else if b = lineFeed ∨ b = carriageReturn then .lineEnd
  else .plain

def Position.advance (p : Position) (b : UInt8) : Position :=
  { p with line := if b = lineFeed then p.line + 1 else p.line, byte := p.byte + 1 }

/-- Where the scan stands in a record. -/
inductive Mode where
  /-- Before the first byte of a record. -/
  | between
  /-- After a comma. -/
  | fresh
  /-- In a cell, outside quotes. -/
  | bare
  /-- In a quoted cell. -/
  | quoted
  /-- In a quoted cell, after a quote that may close it. -/
  | closed
deriving DecidableEq, Repr

structure RawRecord where
  start : Position
  cells : List (List UInt8)
deriving DecidableEq, Repr

/-- The state of the scan: the record in progress has its finished cells and the bytes of its
last cell in reverse order. -/
structure Scan where
  mode : Mode
  start : Position
  here : Position
  cells : List (List UInt8)
  cell : List UInt8
deriving DecidableEq, Repr

namespace Scan

/-- The scan that seeks a record from a position. -/
def seek (p : Position) : Scan := ⟨.between, p, p, [], []⟩

def push (s : Scan) (b : UInt8) : Scan := { s with cell := b :: s.cell }

def enter (s : Scan) (mode : Mode) : Scan := { s with mode := mode }

def endCell (s : Scan) : Scan :=
  { s with mode := .fresh, cells := s.cell.reverse :: s.cells, cell := [] }

/-- The record in progress, ended after the cell in progress. -/
def record (s : Scan) : RawRecord := ⟨s.start, (s.cell.reverse :: s.cells).reverse⟩

def next (s : Scan) : Scan := seek { s.here with record := s.here.record + 1 }

/-- One byte: the record it ends, if it ends one, and the scan after it. -/
def step (s : Scan) (b : UInt8) : Option RawRecord × Scan :=
  let s := { s with here := s.here.advance b }
  match s.mode, ByteKind.of b with
  -- Empty lines before a record move the position only, not its start.
  | .between, .lineEnd => (none, s)
  | .between, .quote => (none, s.enter .quoted)
  | .fresh, .quote => (none, s.enter .quoted)
  | .bare, .quote => (none, s.push b)
  | .quoted, .quote => (none, s.enter .closed)
  -- The quote before this one did not close the cell: the two stand for one.
  | .closed, .quote => (none, (s.push b).enter .quoted)
  | .quoted, _ => (none, s.push b)
  | _, .comma => (none, s.endCell)
  | _, .lineEnd => (some s.record, s.next)
  | _, .plain => (none, (s.push b).enter .bare)

/-- The record that the end of the text ends, if one is in progress. -/
def finish (s : Scan) : Option RawRecord :=
  if s.mode = .between then none else some s.record

def run (s : Scan) : List UInt8 → List RawRecord
  | [] => s.finish.toList
  | b :: rest =>
    match s.step b with
    | (none, s') => s'.run rest
    | (some r, s') => r :: s'.run rest

end Scan

/-- The records of a text. A byte order mark at its start is passed over and counted. -/
def cut (bytes : List UInt8) : List RawRecord :=
  let text := Text.dropByteOrderMark bytes
  let passed := bytes.length - text.length
  -- The first record is still sought from the very start of the text.
  { Scan.seek .start with here := { Position.start with byte := passed } }.run text

end BenchTables.Csv
