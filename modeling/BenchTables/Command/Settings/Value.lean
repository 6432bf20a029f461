import BenchTables.Command.Settings.Basic
import BenchTables.Text.Alphanumeric

/-!
# Values of settings

How the value of a setting is written. Outside quotes it ends at a blank. In double quotes and
outside quotes a backslash escapes a character and a dollar sign refers to the setting whose name
follows it; in single quotes every character stands for itself. The laws say this of plain text
and of text in single quotes.
-/

namespace BenchTables

namespace Settings

/-- Where the reading of a value stands. The flag tells whether double quotes are open. -/
inductive ValueMode where
  | text (quoted : Bool)
  | escape (quoted : Bool)
  /-- After a dollar sign and a part of the name that it refers to, reversed. -/
  | reference (quoted : Bool) (name : List Char)
  /-- As before, with the name in braces. -/
  | braced (quoted : Bool) (name : List Char)
  | single
  /-- After white space outside quotes, where only a comment can follow. -/
  | ended
deriving DecidableEq, Repr

def unescape? (c : Char) : Option Char :=
  if c = 'n' then some '\n'
  else if c ∈ ['\\', '\'', '"', '$', ' '] then some c
  else none

/-- A text, reversed, with the value of a reversed name after it. A name without a value leaves the
text as it is. -/
def refer (settings : Settings) (name taken : List Char) : List Char :=
  ((settings.value? (String.ofList name.reverse)).getD "").toList.reverse ++ taken

/-- The value in the text after an equals sign; `taken` is what has been read of it, reversed.
A backslash in single quotes stands for itself. -/
def readValue (settings : Settings) (mode : ValueMode) (taken : List Char) :
    List Char → Option String
  | [] =>
    match mode with
    | .text false | .escape false | .ended => some (String.ofList taken.reverse)
    | .reference false name => some (String.ofList (settings.refer name taken).reverse)
    | _ => none
  | c :: rest =>
    match mode with
    | .ended =>
      if c = ' ' ∨ c = '\t' then readValue settings .ended taken rest
      else if c = '#' then some (String.ofList taken.reverse)
      else none
    | .escape quoted =>
      (unescape? c).bind fun d => readValue settings (.text quoted) (d :: taken) rest
    | .single =>
      if c = '\'' then readValue settings (.text false) taken rest
      else readValue settings .single (c :: taken) rest
    | .reference quoted name =>
      if Text.isAlphanumeric c then readValue settings (.reference quoted (c :: name)) taken rest
      else if c = '{' ∧ name = [] then readValue settings (.braced quoted []) taken rest
      else if c = '$' then
        readValue settings (.reference quoted []) (settings.refer name taken) rest
      -- The character that ends a name stands for itself, be it a quote or a blank.
      else readValue settings (.text quoted) (c :: settings.refer name taken) rest
    | .braced quoted name =>
      if c = '}' then readValue settings (.text quoted) (settings.refer name taken) rest
      else readValue settings (.braced quoted (c :: name)) taken rest
    | .text quoted =>
      if c = '$' then readValue settings (.reference quoted []) taken rest
      else if c = '"' then readValue settings (.text (!quoted)) taken rest
      else if c = '\\' then readValue settings (.escape quoted) taken rest
      else if quoted then readValue settings (.text quoted) (c :: taken) rest
      else if c = '\'' then readValue settings .single taken rest
      else if c = ' ' ∨ c = '\t' then readValue settings .ended taken rest
      else readValue settings (.text quoted) (c :: taken) rest

/-- Text without quotes, escapes, references and blanks stands for itself. -/
theorem readValue_plain (settings : Settings) (taken text : List Char)
    (h : ∀ c ∈ text, c ∉ ['$', '"', '\\', '\'', ' ', '\t']) :
    readValue settings (.text false) taken text =
      some (String.ofList (taken.reverse ++ text)) := by
  induction text generalizing taken with
  | nil => simp [readValue]
  | cons c rest ih =>
    have hc := h c (by simp)
    simp only [List.mem_cons, List.not_mem_nil, or_false, not_or] at hc
    simp [readValue, hc, ih (c :: taken) fun d hd => h d (List.mem_cons_of_mem c hd)]

/-- In single quotes every character stands for itself. -/
theorem readValue_single (settings : Settings) (taken text : List Char) (h : '\'' ∉ text) :
    readValue settings .single taken (text ++ ['\'']) =
      some (String.ofList (taken.reverse ++ text)) := by
  induction text generalizing taken with
  | nil => simp [readValue]
  | cons c rest ih =>
    obtain ⟨hc, hrest⟩ : c ≠ '\'' ∧ '\'' ∉ rest := by
      simpa [eq_comm] using h
    simp [readValue, hc, ih (c :: taken) hrest]

end Settings

end BenchTables
