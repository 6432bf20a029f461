/-!
# File failures

Why a file cannot be opened, read or written, and how the refusal is worded. A failure that the
system reports has a number; a path with a NUL character is refused before the system sees it.
-/

namespace BenchTables.Files

/-- Why a file operation is refused. Causes that tables meet have a name; any other has the
system's number and wording. -/
inductive Failure where
  | notFound
  | notDirectory
  | isDirectory
  | noSpace
  | nameTooLong
  | nulInName
  | other (code : Nat) (wording : String)
deriving DecidableEq, Repr

def Failure.code? : Failure → Option Nat
  | .notFound => some 2
  | .notDirectory => some 20
  | .isDirectory => some 21
  | .noSpace => some 28
  | .nameTooLong => some 36
  | .nulInName => none
  | .other code _ => some code

def Failure.wording : Failure → String
  | .notFound => "No such file or directory"
  | .notDirectory => "Not a directory"
  | .isDirectory => "Is a directory"
  | .noSpace => "No space left on device"
  | .nameTooLong => "File name too long"
  | .nulInName => "file name contained an unexpected NUL byte"
  | .other _ wording => wording

def Failure.message (f : Failure) : String :=
  match f.code? with
  | some code => f.wording ++ s!" (os error {code})"
  | none => f.wording

/-- The failure with a number. One that has no name keeps the system's wording of it. -/
def Failure.ofCode (code : Nat) (wording : String) : Failure :=
  match code with
  | 2 => .notFound
  | 20 => .notDirectory
  | 21 => .isDirectory
  | 28 => .noSpace
  | 36 => .nameTooLong
  | _ => .other code wording

@[simp] theorem Failure.code?_ofCode (code : Nat) (wording : String) :
    (Failure.ofCode code wording).code? = some code := by
  unfold Failure.ofCode
  split <;> rfl

end BenchTables.Files
