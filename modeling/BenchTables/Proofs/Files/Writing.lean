import BenchTables.Command.Plan
import BenchTables.Proofs.Files.Places
import BenchTables.Proofs.Outcome
import BenchTables.Table.File
import Mathlib.Data.List.Basic

/-!
# Reading what was written

A file that was written holds the bytes written (`read_write_self`), and a file that could be read
reads the same after another place was written (`read_write_of_apart`).  Of outputs with places
apart all are there once all were written (`read_writeAll`).
-/

namespace BenchTables.Files

/-- Two paths that lead to different places, whatever the tree. -/
def Apart (text other : String) : Prop :=
  ∀ p q, Path.parse text = .ok p → Path.parse other = .ok q → p.place ≠ q.place

theorem apart_suffixed {stem s₁ s₂ : String} (h₁ : NamesFile s₁) (h₂ : NamesFile s₂)
    (hne : s₁ ≠ s₂) : Apart (suffixed stem s₁) (suffixed stem s₂) :=
  fun _ _ hp hq => place_suffixed_ne h₁ h₂ hp hq hne

namespace FileTree

variable {tree : FileTree} {text other : String} {place : Place} {content bytes : List UInt8}

/-! ## What can be read and written -/

/-- A file can be created where the way leads, unless a directory is there. -/
theorem destination_eq_ok (h : tree.destination text = .ok place) :
    ∃ path, Path.parse text = .ok path ∧ path.trailingSlash = false ∧
      tree.walk (origin path) path.parts = .ok place ∧ tree.node? place ≠ some .directory := by
  rw [destination] at h
  obtain ⟨path, hparse, h⟩ := bind_eq_ok_iff.mp h
  split at h
  · cases h
  next name hname =>
    obtain ⟨parent, hparent, h⟩ := bind_eq_ok_iff.mp h
    split at h
    · cases h
    next hplain =>
      obtain ⟨place', hplace, h⟩ := bind_eq_ok_iff.mp h
      split at h
      · cases h
      next hnode =>
        cases h
        -- The last step of the way to the parent only asks whether it is a directory.
        obtain ⟨between, hbetween, hdot⟩ := walk_append_eq_ok hparent
        have hsame : between = parent := (eq_foldl_of_walk hdot).symm
        subst hsame
        refine ⟨path, hparse, by simpa using (not_or.mp hplain).1, ?_, hnode⟩
        rw [← List.dropLast_append_getLast? name hname, walk_append, hbetween]
        exact hplace

/-- A file that can be read is where the way leads, also after it has been gone to its end. -/
theorem locate_eq_ok {node : Node} (h : tree.locate text = .ok (place, node)) :
    ∃ path, Path.parse text = .ok path ∧ path.place = place ∧
      tree.walk (origin path) (path.parts ++ if path.trailingSlash then ["."] else []) = .ok place ∧
      tree.node? place = some node := by
  rw [locate] at h
  obtain ⟨path, hparse, h⟩ := bind_eq_ok_iff.mp h
  obtain ⟨place', hwalk, h⟩ := bind_eq_ok_iff.mp h
  split at h
  next node' hnode =>
    cases h
    refine ⟨path, hparse, ?_, hwalk, hnode⟩
    rw [eq_foldl_of_walk hwalk, List.foldl_append]
    split <;> rfl
  · cases h

theorem locate_of_walk {path : Path} {node : Node} (hparse : Path.parse text = .ok path)
    (hwalk : tree.walk (origin path) (path.parts ++ if path.trailingSlash then ["."] else []) =
      .ok place) (hnode : tree.node? place = some node) : tree.locate text = .ok (place, node) := by
  rw [locate, bind_eq_ok_iff]
  refine ⟨path, hparse, bind_eq_ok_iff.mpr ⟨place, hwalk, ?_⟩⟩
  rw [hnode]

theorem read_eq_ok (h : tree.read text = .ok content) :
    ∃ place node, tree.locate text = .ok (place, node) ∧
      (node = .file content ∨ node = .full ∧ content = []) := by
  rw [read] at h
  split at h
  · cases h
  next place bytes hlocate =>
    cases h
    exact ⟨place, _, hlocate, Or.inl rfl⟩
  · cases h
  next place hlocate =>
    cases h
    exact ⟨place, _, hlocate, Or.inr ⟨rfl, rfl⟩⟩

theorem read_of_locate {node : Node} (hlocate : tree.locate text = .ok (place, node))
    (hnode : node = .file content ∨ node = .full ∧ content = []) :
    tree.read text = .ok content := by
  rw [read, hlocate]
  rcases hnode with rfl | ⟨rfl, rfl⟩ <;> rfl

theorem isAbove_of_node?_ne (h : tree.node? place ≠ some .directory) :
    Place.isAbove place = false := by
  by_contra habove
  rw [node?, if_pos (by simpa using habove)] at h
  exact h rfl

/-! ## Writing one file -/

/-- What a write that succeeded came to. -/
theorem write_eq_ok (h : (tree.write text content).2 = .ok ()) :
    ∃ path, Path.parse text = .ok path ∧ path.trailingSlash = false ∧
      tree.walk (origin path) path.parts = .ok path.place ∧
      tree.node? path.place ≠ some .directory ∧
      (tree.node? path.place = some .full ∧ content = [] ∧ (tree.write text content).1 = tree ∨
        (tree.write text content).1 = tree.put path.place (.file content)) := by
  rw [write] at h ⊢
  cases hdest : tree.destination text with
  | error cause => rw [hdest] at h; cases h
  | ok place =>
    obtain ⟨path, hparse, hslash, hwalk, hnode⟩ := destination_eq_ok hdest
    obtain rfl : place = path.place := eq_foldl_of_walk hwalk
    refine ⟨path, hparse, hslash, hwalk, hnode, ?_⟩
    rw [hdest] at h
    dsimp only at h ⊢
    split at h
    next hfull =>
      rw [if_pos hfull]
      by_cases hempty : content = []
      · exact Or.inl ⟨hfull, hempty, rfl⟩
      · rw [if_neg hempty] at h
        cases h
    next hfull =>
      rw [if_neg hfull]
      exact Or.inr rfl

/-- A file that was written holds what was written. -/
theorem read_write_self (h : (tree.write text content).2 = .ok ()) :
    (tree.write text content).1.read text = .ok content := by
  obtain ⟨path, hparse, hslash, hwalk, hnode, hresult⟩ := write_eq_ok h
  have hending : path.parts ++ (if path.trailingSlash then ["."] else []) = path.parts := by
    rw [hslash]
    exact List.append_nil _
  rcases hresult with ⟨hfull, hempty, hafter⟩ | hafter
  · rw [hafter]
    exact read_of_locate (locate_of_walk hparse (by rwa [hending]) hfull) (Or.inr ⟨rfl, hempty⟩)
  · rw [hafter]
    refine read_of_locate (locate_of_walk hparse ?_ (node?_put_self tree path.place _
      (isAbove_of_node?_ne hnode))) (Or.inl rfl)
    rw [hending]
    exact walk_put hnode hwalk

/-- A file reads the same after another place was written. -/
theorem read_write_of_apart (hread : tree.read text = .ok bytes)
    (h : (tree.write other content).2 = .ok ()) (hapart : Apart text other) :
    (tree.write other content).1.read text = .ok bytes := by
  obtain ⟨target, htarget, -, -, hnode, hresult⟩ := write_eq_ok h
  rcases hresult with ⟨-, -, hafter⟩ | hafter
  · rwa [hafter]
  · obtain ⟨place, node, hlocate, hcontent⟩ := read_eq_ok hread
    obtain ⟨path, hparse, rfl, hwalk, hthere⟩ := locate_eq_ok hlocate
    rw [hafter]
    refine read_of_locate (locate_of_walk hparse (walk_put hnode hwalk) ?_) hcontent
    rw [node?_put_of_ne tree _ (hapart path target hparse htarget)]
    exact hthere

/-! ## Writing again -/

/-- A file can be created as before after something is put where no directory was. -/
theorem destination_put {target : Place} {node : Node} (hdirectory : node ≠ .directory)
    (htarget : tree.node? target ≠ some .directory) (h : tree.destination text = .ok place) :
    (tree.put target node).destination text = .ok place := by
  rw [destination] at h ⊢
  obtain ⟨path, hparse, h⟩ := bind_eq_ok_iff.mp h
  refine bind_eq_ok_iff.mpr ⟨path, hparse, ?_⟩
  split at h
  · cases h
  next name hname =>
    obtain ⟨parent, hparent, h⟩ := bind_eq_ok_iff.mp h
    refine bind_eq_ok_iff.mpr ⟨parent, walk_put htarget hparent, ?_⟩
    split at h
    · cases h
    next hplain =>
      rw [if_neg hplain]
      obtain ⟨place', hplace, h⟩ := bind_eq_ok_iff.mp h
      refine bind_eq_ok_iff.mpr ⟨place', walk_put htarget hplace, ?_⟩
      split at h
      · cases h
      next hnode =>
        cases h
        -- What is put is no directory, so neither is what now stands at the file's own place.
        by_cases hsame : place = target
        · subst hsame
          rw [node?_put_self tree place node (isAbove_of_node?_ne htarget)]
          split
          next heq => exact absurd (Option.some.inj heq) hdirectory
          next => rfl
        · rw [node?_put_of_ne tree node hsame]
          split
          next heq => exact absurd heq hnode
          next => rfl

/-- A path that takes any bytes: its file can be created, and not on a full device. -/
def Takes (tree : FileTree) (text : String) : Prop :=
  ∃ place, tree.destination text = .ok place ∧ tree.node? place ≠ some .full

theorem Takes.write_ok (h : tree.Takes text) (content : List UInt8) :
    (tree.write text content).2 = .ok () := by
  obtain ⟨place, hdest, hfull⟩ := h
  rw [write, hdest]
  dsimp only
  rw [if_neg hfull]

/-- A path that takes bytes takes them after any file was written. -/
theorem Takes.write (h : tree.Takes text) (other : String) (content : List UInt8) :
    (tree.write other content).1.Takes text := by
  obtain ⟨place, hdest, hfull⟩ := h
  rw [FileTree.write]
  cases hother : tree.destination other with
  | error cause => exact ⟨place, hdest, hfull⟩
  | ok target =>
    obtain ⟨path, -, -, -, htarget⟩ := destination_eq_ok hother
    dsimp only
    split
    · exact ⟨place, hdest, hfull⟩
    · refine ⟨place, destination_put (by simp) htarget hdest, ?_⟩
      by_cases hsame : place = target
      · subst hsame
        rw [node?_put_self tree place _ (isAbove_of_node?_ne htarget)]
        simp
      · rwa [node?_put_of_ne tree _ hsame]

/-- A table without a fault is written to a path that takes bytes. -/
theorem Takes.writeTable_eq {header : List String} {records : List (List String)}
    (h : tree.Takes text) (hfault : (Csv.write header records).2 = none) :
    tree.writeTable text header records =
      ((tree.write text (Csv.write header records).1).1, .ok ()) := by
  have hwritten := h.write_ok (Csv.write header records).1
  rw [FileTree.writeTable]
  rcases htable : Csv.write header records with ⟨bytes, fault⟩
  rw [htable] at hwritten hfault
  obtain rfl : fault = none := hfault
  dsimp only at hwritten ⊢
  rcases hwrite : tree.write text bytes with ⟨after, result⟩
  rw [hwrite] at hwritten
  obtain rfl : result = .ok () := hwritten
  rfl

/-! ## Writing outputs in order -/

theorem writeAll_cons_eq_ok {output : Output} {rest : List Output}
    (h : (tree.writeAll (output :: rest)).2 = .ok ()) :
    (tree.write output.path output.content).2 = .ok () ∧
      ((tree.write output.path output.content).1.writeAll rest).2 = .ok () ∧
      (tree.writeAll (output :: rest)).1 =
        ((tree.write output.path output.content).1.writeAll rest).1 := by
  rw [writeAll] at h ⊢
  rcases hwrite : tree.write output.path output.content with ⟨after, result⟩
  rw [hwrite] at h
  cases result with
  | error failure => cases h
  | ok _ => exact ⟨rfl, h, rfl⟩

theorem read_writeAll_of_apart {outputs : List Output} (hread : tree.read text = .ok bytes)
    (h : (tree.writeAll outputs).2 = .ok ()) (hapart : ∀ output ∈ outputs, Apart text output.path) :
    (tree.writeAll outputs).1.read text = .ok bytes := by
  induction outputs generalizing tree with
  | nil => exact hread
  | cons output rest ih =>
    obtain ⟨hfirst, hrest, hafter⟩ := writeAll_cons_eq_ok h
    rw [hafter]
    exact ih (read_write_of_apart hread hfirst (hapart output List.mem_cons_self)) hrest
      fun o ho => hapart o (List.mem_cons_of_mem _ ho)

/-- Outputs with places apart are all there once they were written. -/
theorem read_writeAll {outputs : List Output} (h : (tree.writeAll outputs).2 = .ok ())
    (hapart : outputs.Pairwise fun a b => Apart a.path b.path) :
    ∀ output ∈ outputs, (tree.writeAll outputs).1.read output.path = .ok output.content := by
  induction outputs generalizing tree with
  | nil => simp
  | cons output rest ih =>
    obtain ⟨hfirst, hrest, hafter⟩ := writeAll_cons_eq_ok h
    obtain ⟨hothers, hpairs⟩ := List.pairwise_cons.mp hapart
    intro o ho
    rw [hafter]
    rcases List.mem_cons.mp ho with rfl | ho
    · -- The first output is still there after the others, which go elsewhere.
      exact read_writeAll_of_apart (read_write_self hfirst) hrest hothers
    · exact ih hrest hpairs o ho

theorem Takes.writeAll (h : tree.Takes text) (outputs : List Output) :
    (tree.writeAll outputs).1.Takes text := by
  induction outputs generalizing tree with
  | nil => exact h
  | cons output rest ih =>
    have hwritten := h.write output.path output.content
    rw [FileTree.writeAll]
    rcases hwrite : tree.write output.path output.content with ⟨after, result⟩
    rw [hwrite] at hwritten
    cases result with
    | error failure => exact hwritten
    | ok _ => exact ih hwritten

/-- Outputs whose paths take bytes are all written. -/
theorem writeAll_ok {outputs : List Output} (h : ∀ output ∈ outputs, tree.Takes output.path) :
    (tree.writeAll outputs).2 = .ok () := by
  induction outputs generalizing tree with
  | nil => rfl
  | cons output rest ih =>
    have hfirst := (h output List.mem_cons_self).write_ok output.content
    have hrest := ih fun o ho =>
      (h o (List.mem_cons_of_mem _ ho)).write output.path output.content
    rw [FileTree.writeAll]
    rcases hwrite : tree.write output.path output.content with ⟨after, result⟩
    rw [hwrite] at hfirst hrest
    obtain rfl : result = .ok () := hfirst
    exact hrest

/-- A path that takes bytes takes them after any command. -/
theorem Takes.carryOut {ε α : Type} (h : tree.Takes text) (plan : Plan ε α) :
    (plan.carryOut tree).1.Takes text :=
  h.writeAll plan.files

end FileTree

end BenchTables.Files
