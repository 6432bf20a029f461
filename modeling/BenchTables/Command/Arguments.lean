import BenchTables.Command.Aggregate
import BenchTables.Command.Render

/-!
# Command-line arguments

Arguments are told apart into options and operands, then an invocation is read off them. A long
option takes its value after an equals sign or as the next argument, a short one also right behind
its letter; a value that is the next argument does not begin with a dash, unless it is a dash
alone. After `--` everything is an operand. An option is given at most once at each level, except
that `--quiet` may stand both before and after the name of the command.

Help is asked for by an option, before or after the name of a command, or by a command of its own.
Arguments are read from the left up to that option: what comes before it has to make sense as far
as it goes, though operands may be missing, and what comes after it is not looked at.
-/

namespace BenchTables

/-- What an operand or the value of an option has to be. -/
inductive ValueKind where
  | text
  | path
  | count
deriving DecidableEq, Repr

structure OptionSpec where
  name : String
  letter : Option Char
  /-- What its value has to be, for an option that takes one. -/
  value : Option ValueKind
deriving DecidableEq, Repr

/-- What help can be about: the program, or one of its commands. -/
inductive HelpTopic where
  | program
  | aggregate
  | render
  | inspect
  | help
deriving DecidableEq, Repr

/-- What can follow the name of a command: its operands, in order, and options of its own. -/
structure CommandSpec where
  topic : HelpTopic
  operands : List ValueKind
  options : List OptionSpec
deriving DecidableEq, Repr

inductive Argument where
  | operand (text : String)
  | option (name : String) (value : Option String)
deriving DecidableEq, Repr

inductive Command where
  | aggregate (options : Aggregation) (input stem : String)
  | render (labels : Latex.RowLabels) (input stem : String)
  | inspect (repetitions : Option UInt32) (input : String) (output : Option String)
deriving DecidableEq, Repr

structure Invocation where
  quiet : Bool
  command : Command
deriving DecidableEq, Repr

/-- What arguments come to that ask for no command. -/
inductive NoInvocation where
  | help (topic : HelpTopic)
  | misuse
deriving DecidableEq, Repr

namespace Arguments

def quietSpec : OptionSpec := ⟨"quiet", some 'q', none⟩

def helpSpec : OptionSpec := ⟨"help", some 'h', none⟩

/-- The options that stand before the name of a command and after it. -/
def sharedSpecs : List OptionSpec := [quietSpec, helpSpec]

def specOf? : String → Option CommandSpec
  | "aggregate" =>
    some ⟨.aggregate, [.path, .path, .count], [⟨"single-client", none, none⟩]⟩
  | "render" =>
    some ⟨.render, [.path, .path],
      [⟨"noauth-macro", none, some .text⟩, ⟨"auth-macro", none, some .text⟩]⟩
  | "inspect" =>
    some ⟨.inspect, [.path],
      [⟨"repetitions", some 'r', some .count⟩, ⟨"output", some 'o', some .path⟩]⟩
  | _ => none

/-! ## Arguments that have been read -/

def operands (arguments : List Argument) : List String :=
  arguments.filterMap fun
    | .operand text => some text
    | .option .. => none

/-- The values given for an option; an option without a value counts as an empty one. -/
def valuesOf (name : String) (arguments : List Argument) : List String :=
  arguments.filterMap fun
    | .option n value => if n = name then some (value.getD "") else none
    | .operand _ => none

def valueOf? (name : String) (arguments : List Argument) : Option String :=
  (valuesOf name arguments).head?

def has (name : String) (arguments : List Argument) : Bool :=
  (valueOf? name arguments).isSome

def asksHelp (arguments : List Argument) : Bool :=
  has helpSpec.name arguments

/-! ## Reading arguments -/

/-- Whether an argument cannot be the value of the option before it. -/
def looksLikeOption (text : String) : Bool :=
  match text.toList with
  | '-' :: _ :: _ => true
  | _ => false

/-- The options in a cluster of letters. A letter that takes a value takes the rest of the
cluster, less an equals sign; if nothing is left, its value is missing: the last option given is
then waiting for it. Nothing is read after the letter that asks for help. -/
def readCluster (specs : List OptionSpec) : List Char → Option (List Argument × Option String)
  | [] => some ([], none)
  | c :: rest =>
    match specs.find? fun spec => spec.letter = some c with
    | none => none
    | some spec =>
      if spec.value.isSome then
        match rest with
        | [] => some ([], some spec.name)
        -- One equals sign between the letter and its value does not count.
        | '=' :: value => some ([.option spec.name (some (String.ofList value))], none)
        | value => some ([.option spec.name (some (String.ofList value))], none)
      else if spec = helpSpec then some ([.option spec.name none], none)
      else
        (readCluster specs rest).map fun (found, waiting) =>
          (.option spec.name none :: found, waiting)

/-- A long option, given its text after the two dashes. -/
def readLong (specs : List OptionSpec) (text : List Char) :
    Option (List Argument × Option String) :=
  let name := String.ofList (text.takeWhile (· ≠ '='))
  match specs.find? fun spec => spec.name = name, text.dropWhile (· ≠ '=') with
  | none, _ => none
  | some spec, [] =>
    if spec.value.isSome then some ([], some name) else some ([.option name none], none)
  | some spec, _ :: value =>
    if spec.value.isSome then some ([.option name (some (String.ofList value))], none) else none

/-- The options that one argument before `--` gives, or none if it is an operand. -/
def readOption? (specs : List OptionSpec) (text : String) :
    Option (Option (List Argument × Option String)) :=
  match text.toList with
  | '-' :: '-' :: rest => some (readLong specs rest)
  | '-' :: c :: rest => some (readCluster specs (c :: rest))
  | _ => none

/-- What arguments are, up to a request for help, where `waiting` is the option whose value comes
next. -/
def readAll (specs : List OptionSpec) (waiting : Option String) :
    List String → Option (List Argument)
  | [] => if waiting.isSome then none else some []
  | text :: rest =>
    match waiting with
    | some name =>
      if looksLikeOption text then none
      else (readAll specs none rest).map (.option name (some text) :: ·)
    | none =>
      if text = "--" then some (rest.map .operand)
      else match readOption? specs text with
        | none => (readAll specs none rest).map (.operand text :: ·)
        | some none => none
        | some (some (found, next)) =>
          if asksHelp found then some found else (readAll specs next rest).map (found ++ ·)

/-- The options before the name of a command, up to a request for help, and the arguments from that
name on. -/
def readFront : List String → Option (List Argument × List String)
  | [] => some ([], [])
  | text :: rest =>
    if text = "--" then none
    else match readOption? sharedSpecs text with
      | none => some ([], text :: rest)
      | some (some (found, none)) =>
        if asksHelp found then some (found, [])
        else (readFront rest).map fun (more, rest) => (found ++ more, rest)
      | some _ => none

/-! ## Making sense of them -/

def readPath? (text : String) : Option String :=
  if text = "" then none else some text

/-- A number of repetitions, with an optional sign. -/
def readRepetitions? (text : String) : Option UInt32 :=
  let (negative, digits) := Decimal.Numeral.takeSign text.toList
  if digits = [] ∨ digits.any (!Decimal.isDigit ·) then none
  else
    let n := Decimal.digitsValue digits
    -- Minus zero is zero.
    if n < UInt32.size ∧ (negative = false ∨ n = 0) then some (UInt32.ofNat n) else none

def accepts : ValueKind → String → Bool
  | .text, _ => true
  | .path, text => (readPath? text).isSome
  | .count, text => (readRepetitions? text).isSome

/-- Whether each option is given once at most, with a value that it can have. -/
def wellGiven (specs : List OptionSpec) (arguments : List Argument) : Bool :=
  specs.all fun spec =>
    let values := valuesOf spec.name arguments
    values.length ≤ 1 && values.all fun text => spec.value.all (accepts · text)

/-- Whether operands are what they have to be, as far as they go, and no more than there can be. -/
def fit : List ValueKind → List String → Bool
  | _, [] => true
  | [], _ :: _ => false
  | kind :: kinds, text :: texts => accepts kind text && fit kinds texts

/-- The arguments after the name of a command, up to a request for help, if they make sense. -/
def given? (spec : CommandSpec) (arguments : List String) : Option (List Argument) :=
  let specs := sharedSpecs ++ spec.options
  (readAll specs none arguments).filter fun given =>
    wellGiven specs given && fit spec.operands (operands given)

def noAuthSetting : String := "SABOT_NOAUTH_MACRO"

def authSetting : String := "SABOT_AUTH_MACRO"

def readGiven? {α : Type} (read : String → Option α) : Option String → Option (Option α)
  | none => some none
  | some text => (read text).map some

/-- The command of a name, read off its arguments; `settings` gives the labels that no option
gives. -/
def commandOf? (settings : String → Option String) (name : String) (arguments : List Argument) :
    Option Command :=
  match name, operands arguments with
  | "aggregate", [input, stem, repetitions] => do
    let repetitions ← readRepetitions? repetitions
    let singleClient := has "single-client" arguments
    return .aggregate { repetitions, singleClient } (← readPath? input) (← readPath? stem)
  | "render", [input, stem] => do
    let defaults : Latex.RowLabels := {}
    let label := fun option setting fallback =>
      ((valueOf? option arguments).or (settings setting)).getD fallback
    let labels : Latex.RowLabels := {
      noAuth := label "noauth-macro" noAuthSetting defaults.noAuth
      auth := label "auth-macro" authSetting defaults.auth }
    return .render labels (← readPath? input) (← readPath? stem)
  | "inspect", [input] => do
    let repetitions ← readGiven? readRepetitions? (valueOf? "repetitions" arguments)
    let output ← readGiven? readPath? (valueOf? "output" arguments)
    return .inspect repetitions (← readPath? input) output
  | _, _ => none

/-- What the command for help tells about, given the arguments after its name. -/
def helpTopic? : List String → Option HelpTopic
  | [] => some .program
  | [name] => if name = "help" then some .help else (specOf? name).map (·.topic)
  | _ => none

/-- The invocation that the name of a command and the arguments after it ask for. -/
def readCommand (settings : String → Option String) (name : String) (arguments : List String) :
    Except NoInvocation Invocation :=
  if name = "help" then .error ((helpTopic? arguments).elim .misuse .help)
  else match specOf? name with
    | none => .error .misuse
    | some spec =>
      match given? spec arguments with
      | none => .error .misuse
      | some given =>
        if asksHelp given then .error (.help spec.topic)
        else match commandOf? settings name given with
          | none => .error .misuse
          | some command => .ok ⟨has quietSpec.name given, command⟩

end Arguments

/-- The invocation, silenced if the flag for silence stands before its command. -/
def Invocation.silencedBy (front : List Argument) (invocation : Invocation) : Invocation :=
  { invocation with quiet := Arguments.has Arguments.quietSpec.name front || invocation.quiet }

/-- The invocation that arguments ask for, or what they come to instead. -/
def Invocation.parse (settings : String → Option String) (arguments : List String) :
    Except NoInvocation Invocation :=
  match Arguments.readFront arguments with
  | none => .error .misuse
  | some (front, rest) =>
    if Arguments.wellGiven Arguments.sharedSpecs front = false then .error .misuse
    else if Arguments.asksHelp front then .error (.help .program)
    else match rest with
      | [] => .error .misuse
      | name :: arguments =>
        (Arguments.readCommand settings name arguments).map (·.silencedBy front)

end BenchTables
