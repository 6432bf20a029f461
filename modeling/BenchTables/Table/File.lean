import BenchTables.Csv.Writer
import BenchTables.Files.Tree
import BenchTables.Table.Error

/-!
# Tables in files

What a table in a file comes to: its bytes, or the error with which it cannot be opened, read,
created or written. Bytes are written in portions of `portion` bytes; a file that takes no bytes is
noticed when the first portion is full, or else at the end.
-/

namespace BenchTables

open Files

/-- The bytes that are gathered before they are written. -/
def portion : Nat := 8192

/-- The bytes of the file at a path, or the error of a table that cannot be read. -/
def tableBytes (path : String) : Except ReadFailure (List UInt8) → Except TableError (List UInt8)
  | .ok bytes => .ok bytes
  | .error (.opening cause) => .error (.cannotOpen path cause)
  | .error (.reading cause) => .error (.malformed (.file cause))

/-- The error of a table of so many bytes that cannot be written to a path. -/
def TableError.ofWrite (path : String) (size : Nat) : WriteFailure → TableError
  | .creating cause => .cannotCreate path cause
  | .writing cause => if portion < size then .malformed (.file cause) else .cannotFinish cause

/-- What comes of writing a table to a path: the tree after it, and the error if there is one. A
record that is refused leaves what was written before it. -/
def Files.FileTree.writeTable (tree : FileTree) (path : String) (header : List String)
    (records : List (List String)) : FileTree × Except TableError Unit :=
  let (bytes, fault) := Csv.write header records
  let (after, written) := tree.write path bytes
  match fault, written with
  | some fault, .ok () => (after, .error (.malformed fault))
  -- A full portion is refused before the record at fault is reached, the last one after it.
  | some fault, .error (.writing cause) =>
    (after, .error (.malformed (if portion < bytes.length then .file cause else fault)))
  | _, .error failure => (after, .error (.ofWrite path bytes.length failure))
  | none, .ok () => (after, .ok ())

end BenchTables
