import BenchTables.Json.Number

/-!
# JSON values and their texts

A JSON value keeps the members of an object in order. `compact` prints a value without white
space, `pretty` with one member or element a line, indented by two spaces a level; an empty array
or object stays on its line in both.
-/

namespace BenchTables.Json

/-- A JSON value; integers and doubles are told apart. -/
inductive Value where
  | null
  | bool (b : Bool)
  | integer (n : Nat)
  | number (x : Float)
  | text (s : String)
  | array (items : List Value)
  | object (members : List (String × Value))

/-- The value of a double; what is no finite number is `null`. -/
def Value.ofFloat (x : Float) : Value :=
  if x.isFinite then .number x else .null

def hexDigit (n : Nat) : Char :=
  Nat.digitChar n

def escapeChar (c : Char) : List Char :=
  if c = '"' then ['\\', '"']
  else if c = '\\' then ['\\', '\\']
  else if c = '\n' then ['\\', 'n']
  else if c = '\r' then ['\\', 'r']
  else if c = '\t' then ['\\', 't']
  else if c.toNat = 8 then ['\\', 'b']
  else if c.toNat = 12 then ['\\', 'f']
  else if c.toNat < 32 then
    ['\\', 'u', '0', '0', hexDigit (c.toNat / 16), hexDigit (c.toNat % 16)]
  else [c]

def quoted (s : String) : String :=
  String.ofList ('"' :: s.toList.flatMap escapeChar ++ ['"'])

def newLine (level : Nat) : String :=
  "\n" ++ String.ofList (List.replicate (2 * level) ' ')

def numberText (x : Float) : String :=
  jsonNumber.text (Decimal.BinaryValue.ofFloat x)

mutual

def compact : Value → String
  | .null => "null"
  | .bool b => if b then "true" else "false"
  | .integer n => Decimal.natText n
  | .number x => numberText x
  | .text s => quoted s
  | .array items => "[" ++ compactItems items ++ "]"
  | .object members => "\x7b" ++ compactMembers members ++ "\x7d"

def compactItems : List Value → String
  | [] => ""
  | [v] => compact v
  | v :: w :: rest => compact v ++ "," ++ compactItems (w :: rest)

def compactMembers : List (String × Value) → String
  | [] => ""
  | [(key, v)] => quoted key ++ ":" ++ compact v
  | (key, v) :: w :: rest => quoted key ++ ":" ++ compact v ++ "," ++ compactMembers (w :: rest)

end

mutual

def prettyAt (level : Nat) : Value → String
  | .null => "null"
  | .bool b => if b then "true" else "false"
  | .integer n => Decimal.natText n
  | .number x => numberText x
  | .text s => quoted s
  | .array [] => "[]"
  | .array (v :: rest) => "[" ++ prettyItems (level + 1) (v :: rest) ++ newLine level ++ "]"
  | .object [] => "\x7b\x7d"
  | .object (m :: rest) =>
    "\x7b" ++ prettyMembers (level + 1) (m :: rest) ++ newLine level ++ "\x7d"

def prettyItems (level : Nat) : List Value → String
  | [] => ""
  | [v] => newLine level ++ prettyAt level v
  | v :: w :: rest => newLine level ++ prettyAt level v ++ "," ++ prettyItems level (w :: rest)

def prettyMembers (level : Nat) : List (String × Value) → String
  | [] => ""
  | [(key, v)] => newLine level ++ quoted key ++ ": " ++ prettyAt level v
  | (key, v) :: w :: rest =>
    newLine level ++ quoted key ++ ": " ++ prettyAt level v ++ "," ++
      prettyMembers level (w :: rest)

end

def pretty (v : Value) : String :=
  prettyAt 0 v

end BenchTables.Json
