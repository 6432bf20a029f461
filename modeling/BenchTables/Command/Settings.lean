import BenchTables.Command.Settings.Value
import BenchTables.Text.Blank
import BenchTables.Text.Utf8

/-!
# The settings file

Settings come from the environment and from a settings file. An entry of the file assigns a value
to a name, with or without `export` in front; the value may be quoted, and an entry goes on over
lines while a quote is open. A comment begins with a number sign at the start of a line or after
white space. A name that has a value keeps it, and an entry that is no assignment ends the reading
of the file.
-/

namespace BenchTables

namespace Settings

def isNameStart (c : Char) : Bool :=
  c.isAlpha || c = '_'

def isNamePart (c : Char) : Bool :=
  c.isAlphanum || c = '_' || c = '.'

/-- A name and the text after it and after the white space that follows it. -/
def takeName (text : List Char) : Option (String × List Char) :=
  match text with
  | [] => none
  | c :: _ =>
    if isNameStart c then
      some (String.ofList (text.takeWhile isNamePart),
        (text.dropWhile isNamePart).dropWhile Text.isBlank)
    else none

/-- The value that a text assigns, if it begins with an equals sign. -/
def readAssigned (settings : Settings) (text : List Char) : Option String :=
  match text with
  | '=' :: rest =>
    match rest.dropWhile Text.isBlank with
    | [] => some ""
    | '#' :: _ => some ""
    | value => readValue settings (.text false) [] value
  | _ => none

def readEntry (settings : Settings) (text : List Char) : Option (Option (String × String)) :=
  match Text.strip Text.isBlank text with
  | [] => some none
  | '#' :: _ => some none
  | text => do
    let (name, rest) ← takeName text
    if name = "export" ∧ rest.head? ≠ some '=' then
      let (exported, assigned) ← takeName rest
      return some (exported, ← settings.readAssigned assigned)
    else return some (name, ← settings.readAssigned rest)

inductive EntryMode where
  | plain
  | plainEscape
  | single
  | singleEscape
  | double
  | doubleEscape
  /-- After white space outside quotes, where a comment can begin. -/
  | blank
deriving DecidableEq, Repr

/-- The mode after one more character of an entry. A backslash hides the character after it, in
single quotes too: a single quote behind one does not close them, though the backslash is part of
the value. -/
def EntryMode.next (mode : EntryMode) (c : Char) : EntryMode :=
  match mode with
  | .plainEscape => .plain
  | .singleEscape => .single
  | .doubleEscape => .double
  | .single => if c = '\'' then .plain else if c = '\\' then .singleEscape else .single
  | .double => if c = '"' then .plain else if c = '\\' then .doubleEscape else .double
  | .plain | .blank =>
    if c = '\\' then .plainEscape
    else if c = '"' then .double
    else if c = '\'' then .single
    else if mode = .plain ∧ Text.isBlank c ∧ c ≠ '\n' ∧ c ≠ '\r' then .blank
    else .plain

/-- A line up to the comment on it, and the mode at its end. -/
def cutComment (mode : EntryMode) : List Char → List Char × EntryMode
  | [] => ([], mode)
  | c :: rest =>
    if mode = .blank ∧ c = '#' then ([], .plain)
    else
      let (kept, last) := cutComment (mode.next c) rest
      (c :: kept, last)

def isCommentLine (line : List Char) : Bool :=
  (line.dropWhile Text.isBlank).head? = some '#'

/-- The pieces of bytes that a byte ends, each with its end. -/
def pieces (last : UInt8) (bytes : List UInt8) : List (List UInt8) :=
  bytes.foldr
    (fun b done =>
      if b = last then [b] :: done
      else match done with
        | [] => [[b]]
        | piece :: rest => (b :: piece) :: rest)
    []

/-- The settings of an environment that is listed with a zero byte after each of them. One that is
no text counts as not set. -/
def ofEnvironment (bytes : List UInt8) : Settings :=
  (pieces 0 bytes).filterMap fun piece => (Text.decode (piece.takeWhile (· ≠ 0))).toOption

/-- The settings after lines of a settings file, up to the first entry that makes no sense. What
has been read of an entry that is not at its end is `taken`. -/
def addLines (settings : Settings) (taken : List Char) (mode : EntryMode) :
    List (List UInt8) → Settings
  | [] => settings
  | bytes :: rest =>
    match Text.decode bytes with
    | .error _ => settings
    | .ok line =>
      let text := line.toList
      -- A quote in a line that is all comment opens nothing.
      let (kept, last) :=
        if taken = [] ∧ isCommentLine text then ([], .plain) else cutComment mode text
      if last = .plain then
        match settings.readEntry (taken ++ kept) with
        | none => settings
        | some none => addLines settings [] .plain rest
        | some (some (name, value)) => addLines (settings.addNew name value) [] .plain rest
      else addLines settings (taken ++ kept) last rest

def addFile (settings : Settings) (bytes : List UInt8) : Settings :=
  addLines settings [] .plain (pieces 0x0A (Text.dropByteOrderMark bytes))

end Settings

end BenchTables
