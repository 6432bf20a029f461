import BenchTables.Decimal.Numeral
import BenchTables.Json.Value

/-!
# Reading JSON

A strict reader of JSON texts, apart from how they are printed. A text is first cut into tokens, one
character after the other (`tokensFrom`), and the tokens are then read by recursive descent
(`readValue`). `decode` takes a text for a value only if all of it is that value. A number that is
nothing but digits is an integer, all others are rounded to doubles. Of what the format allows only
characters that are told by a pair of surrogates are refused.
-/

namespace BenchTables.Json

open Decimal (isDigit digitValue? digitsValue Numeral)

inductive Token where
  | openArray
  | closeArray
  | openObject
  | closeObject
  | comma
  | colon
  | text (s : String)
  /-- A name or a number. -/
  | word (cs : List Char)
deriving DecidableEq

/-! ## Cutting a text -/

/-- What the characters read so far have begun. -/
inductive Scan where
  | between
  | word (cs : List Char)
  /-- The characters that a text has so far. -/
  | text (cs : List Char)
  | escaped (cs : List Char)
  /-- A character told by its number, of which some hexadecimal digits have been read. -/
  | code (cs : List Char) (digits value : Nat)

def isSpace (c : Char) : Bool :=
  c = ' ' ∨ c = '\n' ∨ c = '\r' ∨ c = '\t'

/-- The characters of names and numbers. -/
def isWordChar (c : Char) : Bool :=
  isDigit c ∨ 'a' ≤ c ∧ c ≤ 'z' ∨ 'A' ≤ c ∧ c ≤ 'Z' ∨ c = '+' ∨ c = '-' ∨ c = '.'

def mark? : Char → Option Token
  | '[' => some .openArray
  | ']' => some .closeArray
  | '\x7b' => some .openObject
  | '\x7d' => some .closeObject
  | ',' => some .comma
  | ':' => some .colon
  | _ => none

/-- The character that stands behind a backslash for another. -/
def unescape? : Char → Option Char
  | '"' => some '"'
  | '\\' => some '\\'
  | '/' => some '/'
  | 'b' => some (Char.ofNat 8)
  | 'f' => some (Char.ofNat 12)
  | 'n' => some '\n'
  | 'r' => some '\r'
  | 't' => some '\t'
  | _ => none

/-- A character outside words and texts: the token that it is, and what it begins. -/
def Scan.start (c : Char) : Option (List Token × Scan) :=
  if isSpace c then some ([], .between)
  else if c = '"' then some ([], .text [])
  else if isWordChar c then some ([], .word [c])
  else (mark? c).map fun token => ([token], .between)

def Scan.step : Scan → Char → Option (List Token × Scan)
  | .between, c => Scan.start c
  | .word cs, c =>
    if isWordChar c then some ([], .word (cs ++ [c]))
    else (Scan.start c).map fun (tokens, next) => (.word cs :: tokens, next)
  | .text cs, c =>
    if c = '"' then some ([.text (String.ofList cs)], .between)
    else if c = '\\' then some ([], .escaped cs)
    else if c.toNat < 32 then none
    else some ([], .text (cs ++ [c]))
  | .escaped cs, c =>
    if c = 'u' then some ([], .code cs 0 0)
    else (unescape? c).map fun d => ([], .text (cs ++ [d]))
  | .code cs digits value, c =>
    (digitValue? 16 c).bind fun d =>
      let value := 16 * value + d
      if digits < 3 then some ([], .code cs (digits + 1) value)
      else if value.isValidChar then some ([], .text (cs ++ [Char.ofNat value]))
      else none

/-- What is left at the end of a text; a text between quotes has to be closed. -/
def Scan.finish? : Scan → Option (List Token)
  | .between => some []
  | .word cs => some [.word cs]
  | _ => none

def tokensFrom : Scan → List Char → Option (List Token)
  | state, [] => state.finish?
  | state, c :: rest =>
    (state.step c).bind fun (tokens, next) => (tokensFrom next rest).map (tokens ++ ·)

/-! ## Words -/

/-- A number behind its integer digits: a point with digits behind it or no point, and an exponent
or none. -/
def readFraction? (negative : Bool) (whole : List Char) : List Char → Option Numeral
  | '.' :: rest =>
    let fraction := rest.takeWhile isDigit
    if fraction = [] then none
    else (Numeral.readExponent? (rest.dropWhile isDigit)).map fun e =>
      ⟨negative, digitsValue (whole ++ fraction), e - fraction.length⟩
  | rest => (Numeral.readExponent? rest).map fun e => ⟨negative, digitsValue whole, e⟩

/-- Whether digits are an integer: there are some, and a zero in front is the only one of them. -/
def isWhole (ds : List Char) : Bool :=
  ds ≠ [] ∧ (ds.head? = some '0' → ds = ['0'])

def readMagnitude? (negative : Bool) (cs : List Char) : Option Numeral :=
  let whole := cs.takeWhile isDigit
  if isWhole whole then readFraction? negative whole (cs.dropWhile isDigit) else none

def readNumber? : List Char → Option Numeral
  | '-' :: rest => readMagnitude? true rest
  | cs => readMagnitude? false cs

/-- The value that a word is; a number beyond all doubles is none. -/
def wordValue? (cs : List Char) : Option Value :=
  if cs = ['n', 'u', 'l', 'l'] then some .null
  else if cs = ['t', 'r', 'u', 'e'] then some (.bool true)
  else if cs = ['f', 'a', 'l', 's', 'e'] then some (.bool false)
  else if cs.all isDigit then
    if isWhole cs then some (.integer (digitsValue cs)) else none
  else
    (readNumber? cs).bind fun n => if n.toFloat.isFinite then some (.number n.toFloat) else none

/-! ## Values -/

/-- Parts with commas between them, up to the token that closes them. -/
def readParts {α : Type} (readPart : List Token → Option (α × List Token)) (close : Token) :
    Nat → List Token → Option (List α × List Token)
  | 0, _ => none
  | fuel + 1, tokens => (readPart tokens).bind fun (part, rest) =>
    match rest with
    | [] => none
    | token :: rest =>
      if token = close then some ([part], rest)
      else if token = .comma then
        (readParts readPart close fuel rest).map fun (parts, rest) => (part :: parts, rest)
      else none

def readMember (readValue : List Token → Option (Value × List Token)) :
    List Token → Option ((String × Value) × List Token)
  | .text key :: .colon :: rest => (readValue rest).map fun (v, rest) => ((key, v), rest)
  | _ => none

/-- The value that tokens begin with, and the tokens after it. No value has more tokens than the
first argument. -/
def readValue : Nat → List Token → Option (Value × List Token)
  | 0, _ => none
  | fuel + 1, tokens =>
    match tokens with
    | .word cs :: rest => (wordValue? cs).map (·, rest)
    | .text s :: rest => some (.text s, rest)
    | .openArray :: .closeArray :: rest => some (.array [], rest)
    | .openArray :: rest =>
      (readParts (readValue fuel) .closeArray fuel rest).map fun (items, rest) =>
        (.array items, rest)
    | .openObject :: .closeObject :: rest => some (.object [], rest)
    | .openObject :: rest =>
      (readParts (readMember (readValue fuel)) .closeObject fuel rest).map fun (members, rest) =>
        (.object members, rest)
    | _ => none

/-- The value that a text is. -/
def decode (text : String) : Option Value :=
  (tokensFrom .between text.toList).bind fun tokens =>
    match readValue tokens.length tokens with
    | some (v, []) => some v
    | _ => none

end BenchTables.Json
