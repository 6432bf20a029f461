import BenchTables.Files.Failure

/-!
# Paths

A path is cut at its slashes. Empty parts count for nothing, except that a path that begins with a
slash starts at the root and one that ends with a slash names a directory. Paths and their parts
have a greatest length, counted in bytes.
-/

namespace BenchTables.Files

/-- A path as it is walked. -/
structure Path where
  absolute : Bool
  /-- The parts between slashes, without the empty ones. -/
  parts : List String
  trailingSlash : Bool
deriving DecidableEq, Repr

def splitSlashes : List Char → List (List Char)
  | [] => [[]]
  | c :: rest =>
    if c = '/' then [] :: splitSlashes rest
    else match splitSlashes rest with
      | [] => [[c]]
      | part :: parts => (c :: part) :: parts

/-- The most bytes that a path can have. -/
def longestPath : Nat := 4095

/-- The most bytes that a part of a path can have. -/
def longestName : Nat := 255

def Path.parse (text : String) : Except Failure Path :=
  let cs := text.toList
  if '\x00' ∈ cs then .error .nulInName
  else if cs = [] then .error .notFound
  else if text.utf8ByteSize > longestPath then .error .nameTooLong
  else .ok {
    absolute := cs.head? = some '/'
    parts := ((splitSlashes cs).filter (· ≠ [])).map String.ofList
    trailingSlash := cs.getLast? = some '/' }

/-- The path of a file named by a common stem and a suffix, with nothing put between them. -/
def suffixed (stem suffix : String) : String :=
  stem ++ suffix

end BenchTables.Files
