import BenchTables.Files.Tree
import BenchTables.Log.Traced

/-!
# Plans

A command reads all its files before it writes any. What it makes of them is a plan: what it
reports, and either an error or the files to write in order, with what is reported once they are
written. Carrying a plan out on a file tree stops at the first file that cannot be written; the
files before it stay written. `carryOut_of_error` says that a plan in error changes nothing.
-/

namespace BenchTables

open Files

structure Output where
  path : String
  content : List UInt8
deriving DecidableEq, Repr

/-- What a command does once it knows its result: the files it writes, the error when one of them
is refused, and what it reports in the end. -/
structure Delivery (ε α : Type) where
  files : List Output
  refused : Output → WriteFailure → ε
  closing : List LogEntry
  result : α

abbrev Plan (ε α : Type) := Traced ε (Delivery ε α)

namespace Plan

def mapError {ε δ α : Type} (f : ε → δ) (plan : Plan ε α) : Plan δ α where
  log := plan.log
  outcome := match plan.outcome with
    | .error e => .error (f e)
    | .ok d => .ok ⟨d.files, fun o w => f (d.refused o w), d.closing, d.result⟩

def followedBy {ε α β : Type} (plan : Plan ε α) (entries : α → List LogEntry) (result : α → β) :
    Plan ε β where
  log := plan.log
  outcome := plan.outcome.map fun d =>
    ⟨d.files, d.refused, d.closing ++ entries d.result, result d.result⟩

end Plan

/-- What came of writing files in order: the first one refused, if one was. -/
abbrev Written := Except (Output × WriteFailure) Unit

def Plan.conclude {ε α : Type} (plan : Plan ε α) (written : Written) : Traced ε α :=
  match plan.outcome with
  | .error e => ⟨plan.log, .error e⟩
  | .ok d =>
    match written with
    | .error (output, failure) => ⟨plan.log, .error (d.refused output failure)⟩
    | .ok () => ⟨plan.log ++ d.closing, .ok d.result⟩

/-- The files that a plan writes; none when it is in error. -/
def Plan.files {ε α : Type} (plan : Plan ε α) : List Output :=
  match plan.outcome with
  | .error _ => []
  | .ok d => d.files

/-- The tree after files are written in order, up to the first one refused. -/
def Files.FileTree.writeAll (tree : FileTree) : List Output → FileTree × Written
  | [] => (tree, .ok ())
  | output :: rest =>
    match tree.write output.path output.content with
    | (after, .ok ()) => after.writeAll rest
    | (after, .error failure) => (after, .error (output, failure))

def Plan.carryOut {ε α : Type} (plan : Plan ε α) (tree : FileTree) : FileTree × Traced ε α :=
  let (after, written) := tree.writeAll plan.files
  (after, plan.conclude written)

theorem Plan.carryOut_of_error {ε α : Type} (plan : Plan ε α) (tree : FileTree) (e : ε)
    (h : plan.outcome = .error e) : plan.carryOut tree = (tree, ⟨plan.log, .error e⟩) := by
  simp [carryOut, files, conclude, h, FileTree.writeAll]

end BenchTables
