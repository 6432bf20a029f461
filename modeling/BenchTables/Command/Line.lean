import BenchTables.Command.Arguments
import BenchTables.Command.Inspect
import BenchTables.Command.Settings

/-!
# Running a command line

A run of the program: its arguments ask for a command, the command's plan is carried out, and the
run ends with an exit status and what it printed. Progress goes to standard error unless quiet; an
error is told there in any case. A request for help ends the run with status 0 and help on standard
output, and arguments that ask for nothing end it with status 2 and a refusal on standard error.
How help and refusals are worded is left open.
-/

namespace BenchTables

open Files

inductive CommandError where
  | aggregate (error : AggregateError)
  | render (error : RenderError)
  | output (cause : Failure)
deriving DecidableEq, Repr

def CommandError.message : CommandError → String
  | .aggregate error => error.message
  | .render error => error.message
  | .output cause => cause.message

/-- How a run ends: as its command does, with a status and what was printed, or before any command,
with help or with a refusal of its arguments. -/
inductive Exit where
  | ended (status : UInt32) (output errors : String)
  | helped (topic : HelpTopic) (settings : Settings)
  | refused (arguments : List String) (settings : Settings)
deriving DecidableEq, Repr

/-- The wording of help and of refusals. Both can show the settings that a run finds. -/
structure Wording where
  help : HelpTopic → Settings → String := fun _ _ => ""
  refusal : List String → Settings → String := fun _ _ => ""

namespace Exit

def status : Exit → UInt32
  | ended status .. => status
  | helped .. => 0
  | refused .. => 2

def standardOutput (exit : Exit) (wording : Wording := {}) : String :=
  match exit with
  | ended _ output _ => output
  | helped topic settings => wording.help topic settings
  | refused .. => ""

def standardError (exit : Exit) (wording : Wording := {}) : String :=
  match exit with
  | ended _ _ errors => errors
  | helped .. => ""
  | refused arguments settings => wording.refusal arguments settings

/-- The end of a run whose arguments ask for no command. -/
def withoutCommand (arguments : List String) (settings : Settings) : NoInvocation → Exit
  | .help topic => .helped topic settings
  | .misuse => .refused arguments settings

end Exit

def settingsFile : String := ".env"

namespace Command

def inputs : Command → List String
  | .aggregate _ input _ => [input]
  | .render _ input _ => renderedKinds.map (·.path input)
  | .inspect _ input _ => [input]

def aggregatedEntry (report : Aggregated) : LogEntry :=
  .success <| s!"✨ Done: {report.keptRows} of {report.inputRows} rows kept, " ++
    s!"{report.files.length} files written"

def renderedEntry (report : Rendered) : LogEntry :=
  .success ("✨ Done: " ++ String.intercalate " and " (report.files.map (·.path)))

/-- A report that is written to a file, if one is given, or else printed. -/
def reportDelivery (output : Option String) (text : String) : Delivery CommandError String :=
  match output with
  | none => ⟨[], fun _ failure => .output failure.cause, [], text ++ "\n"⟩
  | some path =>
    ⟨[⟨path, Text.encode text⟩], fun _ failure => .output failure.cause,
      [.success ("💾 Output written to: " ++ path)], ""⟩

def plan (command : Command) (read : String → Except ReadFailure (List UInt8)) :
    Plan CommandError String :=
  match command with
  | .aggregate options input stem =>
    Plan.followedBy (Plan.mapError .aggregate (aggregatePlan options input stem read))
      (fun report => [aggregatedEntry report]) (fun _ => "")
  | .render labels input stem =>
    Plan.followedBy (Plan.mapError .render (renderPlan labels input stem read))
      (fun report => [renderedEntry report]) (fun _ => "")
  | .inspect repetitions input output =>
    ((inspectText repetitions input read).mapError .aggregate).map (reportDelivery output)

end Command

/-- How a run ends, by what came of its command. -/
def Exit.ofTraced (quiet : Bool) (done : Traced CommandError String) : Exit :=
  let progress := LogEntry.linesOf quiet done.log
  match done.outcome with
  | .ok text => .ended 0 text progress
  | .error e => .ended 1 "" (progress ++ "❌ Error: " ++ e.message ++ "\n")

/-- The settings of a run: those of the environment, and those of the settings file, if there is
one, under other names. -/
def settingsFor (environment : Settings) (file : Option (List UInt8)) : Settings :=
  match file with
  | some bytes => environment.addFile bytes
  | none => environment

/-- The settings of a run in a tree, where the settings file is searched for upward. -/
def settingsIn (environment : Settings) (tree : FileTree) : Settings :=
  settingsFor environment (tree.nearest? settingsFile)

def runLine (environment : Settings) (arguments : List String) (tree : FileTree) :
    FileTree × Exit :=
  let settings := settingsIn environment tree
  match Invocation.parse settings.value? arguments with
  | .error reason => (tree, .withoutCommand arguments settings reason)
  | .ok invocation =>
    let (after, done) := (invocation.command.plan tree.read).carryOut tree
    (after, Exit.ofTraced invocation.quiet done)

end BenchTables
