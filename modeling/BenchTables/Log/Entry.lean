/-!
# Log entries

Progress is reported in entries of four levels, one line each, indented by steps of three spaces.
A quiet log keeps nothing of them: `linesOf true entries` is empty.
-/

namespace BenchTables

inductive LogLevel where
  | info
  | success
  | warning
  | error
deriving DecidableEq, Repr

def LogLevel.mark : LogLevel → String
  | .info => "   "
  | .success => "   ✓"
  | .warning => "   ⚠️"
  | .error => "   ❌"

structure LogEntry where
  level : LogLevel
  message : String
  indent : UInt8 := 0
deriving DecidableEq, Repr

namespace LogEntry

def line (e : LogEntry) : String :=
  String.join (List.replicate e.indent.toNat "   ") ++ e.level.mark ++ " " ++ e.message

/-- An entry that tells what is being done. -/
def info (message : String) : LogEntry := ⟨.info, message, 0⟩

/-- An entry that tells what has been done. -/
def success (message : String) : LogEntry := ⟨.success, message, 0⟩

/-- An entry that tells what may be amiss. -/
def warning (message : String) : LogEntry := ⟨.warning, message, 0⟩

/-- An entry that tells a detail of the one before it. -/
def detail (message : String) : LogEntry := ⟨.info, message, 1⟩

def linesOf (quiet : Bool) (entries : List LogEntry) : String :=
  if quiet then "" else String.join (entries.map fun e => e.line ++ "\n")

@[simp] theorem linesOf_quiet (entries : List LogEntry) : linesOf true entries = "" := rfl

end LogEntry

end BenchTables
