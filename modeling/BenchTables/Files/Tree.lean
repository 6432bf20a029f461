import BenchTables.Files.Failure
import BenchTables.Files.Path

/-!
# File trees

A file tree is what a run finds and leaves: directories, files with their bytes, and devices that
are full. It is a list of places with what is there, each place the parts of a path from the
working directory or, after `/`, from the root; a place above the working directory begins with
`..`. There are no links, and places from the working directory never meet those from the root.
Reading and creating fail as the system words it. The laws say that a place set is found, that no
other place changes with it, and that a file searched for upward is the nearest.
-/

namespace BenchTables.Files

inductive Node where
  | file (content : List UInt8)
  | directory
  /-- A device that takes no bytes. -/
  | full
deriving DecidableEq, Repr

abbrev Place := List String

/-- Whether a place is the working directory or one of the directories above it. -/
def Place.isAbove (place : Place) : Bool :=
  place.all (· = "..")

/-- The place of a name in the directory that is so many levels above the working directory. -/
def Place.upward (level : Nat) (name : String) : Place :=
  List.replicate level ".." ++ [name]

/-- What there is around the working directory and below the root. -/
structure FileTree where
  entries : List (Place × Node)
deriving DecidableEq, Repr

/-- Why a file cannot be read: it cannot be opened, or its bytes cannot be read. -/
inductive ReadFailure where
  | opening (cause : Failure)
  | reading (cause : Failure)
deriving DecidableEq, Repr

/-- Why a file cannot be written: it cannot be created, or its bytes cannot be written. -/
inductive WriteFailure where
  | creating (cause : Failure)
  | writing (cause : Failure)
deriving DecidableEq, Repr

def WriteFailure.cause : WriteFailure → Failure
  | .creating cause => cause
  | .writing cause => cause

/-- A list of places with a node put at one of them: in its old entry, or after all others. -/
def putEntry (place : Place) (node : Node) : List (Place × Node) → List (Place × Node)
  | [] => [(place, node)]
  | (key, old) :: rest =>
    if key = place then (place, node) :: rest else (key, old) :: putEntry place node rest

namespace FileTree

def fresh : FileTree :=
  ⟨[(["/"], .directory), (["/", "dev"], .directory), (["/", "dev", "full"], .full)]⟩

/-- What is at a place; the working directory and those above it are always there. -/
def node? (tree : FileTree) (place : Place) : Option Node :=
  if Place.isAbove place then some .directory else tree.entries.lookup place

def put (tree : FileTree) (place : Place) (node : Node) : FileTree :=
  ⟨putEntry place node tree.entries⟩

def erase (tree : FileTree) (place : Place) : FileTree :=
  ⟨tree.entries.filter fun entry => entry.1 ≠ place⟩

def stepInto (here : Place) (part : String) : Place :=
  if part = "." then here
  else if part = ".." then
    if here = ["/"] then here
    else if Place.isAbove here then ".." :: here
    else here.dropLast
  else here ++ [part]

/-- The place that parts lead to; every place passed on the way has to be a directory, and no
directory holds a name that is too long. -/
def walk (tree : FileTree) (here : Place) : List String → Except Failure Place
  | [] => .ok here
  | part :: rest =>
    match tree.node? here with
    | some .directory =>
      if part.utf8ByteSize > longestName then .error .nameTooLong
      else tree.walk (stepInto here part) rest
    | some _ => .error .notDirectory
    | none => .error .notFound

def origin (path : Path) : Place :=
  if path.absolute then ["/"] else []

def locate (tree : FileTree) (text : String) : Except Failure (Place × Node) := do
  let path ← Path.parse text
  let ending := if path.trailingSlash then ["."] else []
  let place ← tree.walk (origin path) (path.parts ++ ending)
  match tree.node? place with
  | some node => .ok (place, node)
  | none => .error .notFound

/-- The bytes of the file at a path. A directory can be opened but not read; a full device is taken
for empty. -/
def read (tree : FileTree) (text : String) : Except ReadFailure (List UInt8) :=
  match tree.locate text with
  | .error cause => .error (.opening cause)
  | .ok (_, .file content) => .ok content
  | .ok (_, .directory) => .error (.reading .isDirectory)
  | .ok (_, .full) => .ok []

def destination (tree : FileTree) (text : String) : Except Failure Place := do
  let path ← Path.parse text
  match path.parts.getLast? with
  | none => .error .isDirectory
  | some name => do
    let parent ← tree.walk (origin path) (path.parts.dropLast ++ ["."])
    -- Such an ending asks for a directory, whether or not one is there.
    if path.trailingSlash ∨ name = "." ∨ name = ".." then .error .isDirectory
    else
      let place ← tree.walk parent [name]
      match tree.node? place with
      | some .directory => .error .isDirectory
      | _ => .ok place

/-- The tree after bytes are written to a path, in place of what its file held, and the failure
that kept them from being written. -/
def write (tree : FileTree) (text : String) (content : List UInt8) :
    FileTree × Except WriteFailure Unit :=
  match tree.destination text with
  | .error cause => (tree, .error (.creating cause))
  | .ok place =>
    if tree.node? place = some .full then
      (tree, if content = [] then .ok () else .error (.writing .noSpace))
    else (tree.put place (.file content), .ok ())

def files (tree : FileTree) : List (String × List UInt8) :=
  tree.entries.filterMap fun
    | (place, .file content) =>
      if place.head? = some "/" ∨ place.head? = some ".." then none
      else some (String.intercalate "/" place, content)
    | _ => none

/-- What the file at a place holds, if a file is there. -/
def content? (tree : FileTree) (place : Place) : Option (List UInt8) :=
  match tree.node? place with
  | some (.file content) => some content
  | _ => none

/-- The length of the longest place that has an entry. -/
def depth (tree : FileTree) : Nat :=
  (tree.entries.map fun entry => entry.1.length).foldr max 0

/-- What the nearest file of a name holds: that of the working directory or of the closest
directory above it that has one, the root being the last. Whatever is no file is passed over. -/
def nearest? (tree : FileTree) (name : String) : Option (List UInt8) :=
  ((List.range tree.depth).map (Place.upward · name) ++ [["/", name]]).findSome? tree.content?

def makeDirectories (tree : FileTree) (place : Place) : FileTree :=
  (List.range place.length).foldl
    (fun t n =>
      let here := place.take (n + 1)
      if (t.node? here).isNone then t.put here .directory else t)
    tree

theorem lookup_putEntry (place other : Place) (node : Node) (l : List (Place × Node)) :
    (putEntry place node l).lookup other =
      if other = place then some node else l.lookup other := by
  have ofNe : ∀ {a b : Place}, ¬a = b → (a == b) = false := fun h => beq_eq_false_iff_ne.mpr h
  induction l with
  | nil =>
    by_cases h : other = place
    · simp [putEntry, h]
    · simp [putEntry, List.lookup_cons, h, ofNe h]
  | cons entry rest ih =>
    obtain ⟨key, old⟩ := entry
    by_cases hk : key = place
    · -- The old entry of the place is replaced where it stands.
      subst hk
      by_cases h : other = key
      · simp [putEntry, h]
      · simp [putEntry, List.lookup_cons, h, ofNe h]
    · by_cases h : other = key
      · subst h
        simp [putEntry, hk]
      · simp [putEntry, List.lookup_cons, hk, ofNe h, ih]

@[simp] theorem node?_put_self (tree : FileTree) (place : Place) (node : Node)
    (h : Place.isAbove place = false) : (tree.put place node).node? place = some node := by
  simp [node?, put, h, lookup_putEntry]

theorem node?_put_of_ne (tree : FileTree) {place other : Place} (node : Node)
    (h : other ≠ place) : (tree.put place node).node? other = tree.node? other := by
  simp [node?, put, lookup_putEntry, h]

theorem length_le_depth {tree : FileTree} {place : Place} {node : Node}
    (h : tree.entries.lookup place = some node) : place.length ≤ tree.depth := by
  obtain ⟨entries⟩ := tree
  unfold depth
  dsimp only at h ⊢
  induction entries with
  | nil => cases h
  | cons entry rest ih =>
    rw [List.lookup_cons] at h
    rw [List.map_cons, List.foldr_cons]
    by_cases hkey : place = entry.1
    · rw [hkey]
      exact Nat.le_max_left _ _
    · rw [beq_eq_false_iff_ne.mpr hkey] at h
      exact Nat.le_trans (ih h) (Nat.le_max_right _ _)

theorem lt_depth_of_content? {tree : FileTree} {level : Nat} {name : String}
    {content : List UInt8} (h : tree.content? (Place.upward level name) = some content) :
    level < tree.depth := by
  unfold content? node? at h
  split at h
  next hnode =>
    split at hnode
    · cases hnode
    · have hlength : level + 1 ≤ tree.depth := by
        simpa [Place.upward] using length_le_depth hnode
      exact hlength
  · cases h

/-- The file at the least level that has one is found. -/
theorem nearest?_of_least {tree : FileTree} {level : Nat} {name : String} {content : List UInt8}
    (h : tree.content? (Place.upward level name) = some content)
    (hleast : ∀ lower < level, tree.content? (Place.upward lower name) = none) :
    tree.nearest? name = some content := by
  obtain ⟨more, hmore⟩ := Nat.exists_eq_add_of_lt (lt_depth_of_content? h)
  have hbelow : ((List.range level).map (Place.upward · name)).findSome? tree.content? = none := by
    rw [List.findSome?_eq_none_iff]
    simpa using hleast
  rw [nearest?, hmore, Nat.add_assoc, List.range_add, List.range_succ_eq_map, List.map_append,
    List.findSome?_append, List.findSome?_append, hbelow]
  simp [h]

/-- Where no level has a file of the name, that of the root is the nearest. -/
theorem nearest?_of_none {tree : FileTree} {name : String}
    (h : ∀ level, tree.content? (Place.upward level name) = none) :
    tree.nearest? name = tree.content? ["/", name] := by
  have hlevels : ((List.range tree.depth).map (Place.upward · name)).findSome? tree.content? =
      none := by
    rw [List.findSome?_eq_none_iff]
    simpa using fun level _ => h level
  rw [nearest?, List.findSome?_append, hlevels]
  cases hroot : tree.content? ["/", name] <;> simp [hroot]

end FileTree

end BenchTables.Files
