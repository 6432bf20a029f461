import BenchTables.Command.Line

/-!
# The program

The program reads the files that its command names, then writes and prints what the plan of the
command says. What it does is decided by `Invocation.parse`, `Command.plan` and
`Exit.ofTraced`; here the system is only asked and told.
-/

namespace BenchTables.Program

open Files

def failureOf : IO.Error → Failure
  | .noFileOrDirectory _ code wording => .ofCode code.toNat wording
  | .alreadyExists _ code wording => .ofCode code.toNat wording
  | .invalidArgument _ code wording => .ofCode code.toNat wording
  | .permissionDenied _ code wording => .ofCode code.toNat wording
  | .resourceExhausted _ code wording => .ofCode code.toNat wording
  | .inappropriateType _ code wording => .ofCode code.toNat wording
  | .noSuchThing _ code wording => .ofCode code.toNat wording
  | .interrupted _ code wording => .ofCode code.toNat wording
  | .otherError code wording => .ofCode code.toNat wording
  | .resourceBusy code wording => .ofCode code.toNat wording
  | .resourceVanished code wording => .ofCode code.toNat wording
  | .unsupportedOperation code wording => .ofCode code.toNat wording
  | .hardwareFault code wording => .ofCode code.toNat wording
  | .unsatisfiedConstraints code wording => .ofCode code.toNat wording
  | .illegalOperation code wording => .ofCode code.toNat wording
  | .protocolError code wording => .ofCode code.toNat wording
  | .timeExpired code wording => .ofCode code.toNat wording
  | .unexpectedEof => .other 0 "unexpected end of file"
  | .userError wording => .other 0 wording

def readFile (path : String) : BaseIO (Except ReadFailure (List UInt8)) := do
  match ← (IO.FS.Handle.mk path .read).toBaseIO with
  | .error e => return .error (.opening (failureOf e))
  | .ok handle =>
    match ← handle.readBinToEnd.toBaseIO with
    | .error e => return .error (.reading (failureOf e))
    | .ok bytes => return .ok bytes.toList

def writeFile (output : Output) : BaseIO (Except WriteFailure Unit) := do
  match ← (IO.FS.Handle.mk output.path .write).toBaseIO with
  | .error e => return .error (.creating (failureOf e))
  | .ok handle =>
    let writing : IO Unit := do
      handle.write output.content.toByteArray
      handle.flush
    return (← writing.toBaseIO).mapError fun e => .writing (failureOf e)

/-- Writes files in order, up to the first one refused. -/
def writeFiles : List Output → BaseIO Written
  | [] => return .ok ()
  | output :: rest => do
    match ← writeFile output with
    | .ok () => writeFiles rest
    | .error failure => return .error (output, failure)

/-- Where the system lists the environment of the program. -/
def environmentList : String := "/proc/self/environ"

/-- The settings that the environment gives; those of the command line alone where the system
lists no environment. -/
def environment : BaseIO Settings := do
  match ← readFile environmentList with
  | .ok bytes => return .ofEnvironment bytes
  | .error _ =>
    let given ← [Arguments.noAuthSetting, Arguments.authSetting].filterMapM fun name => do
      return (← IO.getEnv name).map (name, ·)
    return .ofVariables given

/-- What the nearest file of a name holds, from the working directory upward, so many levels. What
is not there or is a directory is passed over; any other failure ends the search. -/
def nearestFile? (path : String) : Nat → BaseIO (Option (List UInt8))
  | 0 => return none
  | levels + 1 => do
    match ← readFile path with
    | .ok bytes => return some bytes
    | .error (.opening .notFound) => nearestFile? ("../" ++ path) levels
    | .error (.reading .isDirectory) => nearestFile? ("../" ++ path) levels
    | .error _ => return none

/-- More levels than a path can go up. -/
def allLevels : Nat := longestPath / 3

def perform (invocation : Invocation) : BaseIO Exit := do
  let contents ← invocation.command.inputs.mapM fun path => return (path, ← readFile path)
  let plan := invocation.command.plan fun path =>
    (contents.lookup path).getD (.error (.opening .notFound))
  return .ofTraced invocation.quiet (plan.conclude (← writeFiles plan.files))

def run (wording : Wording) (arguments : List String) : IO UInt32 := do
  let settings := settingsFor (← environment) (← nearestFile? settingsFile allLevels)
  let exit ← match Invocation.parse settings.value? arguments with
    | .error reason => pure (.withoutCommand arguments settings reason)
    | .ok invocation => perform invocation
  IO.print (exit.standardOutput wording)
  IO.eprint (exit.standardError wording)
  return exit.status

end BenchTables.Program

/-- Runs the program on its command-line arguments, with no wording for help and refusals. -/
def main (arguments : List String) : IO UInt32 :=
  BenchTables.Program.run {} arguments
