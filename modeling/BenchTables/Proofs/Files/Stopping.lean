import BenchTables.Proofs.Files.Writing

/-!
# What stands after writing

Outputs are written in order, up to the first one that is refused, and a refused one changes nothing
(`write_error`).  So writing that stops has written the outputs before that one and no others
(`writeAll_eq_error`).  Outputs that were written are there, and every other place is as it was
(`leftBy_writeAll`).
-/

namespace BenchTables.Files

namespace FileTree

variable {tree : FileTree} {text : String} {place : Place} {content : List UInt8}

/-! ## One output -/

theorem write_error {failure : WriteFailure} (h : (tree.write text content).2 = .error failure) :
    (tree.write text content).1 = tree := by
  unfold write at h ⊢
  cases hdest : tree.destination text with
  | error cause => rfl
  | ok target =>
    rw [hdest] at h
    dsimp only at h ⊢
    split
    · rfl
    next hfull =>
      -- A place that takes bytes refuses nothing.
      rw [if_neg hfull] at h
      cases h

/-- Places to which the path does not lead are as before. -/
theorem node?_write_of_ne (h : ∀ path, Path.parse text = .ok path → place ≠ path.place) :
    (tree.write text content).1.node? place = tree.node? place := by
  cases hwrite : (tree.write text content).2 with
  | error failure => rw [write_error hwrite]
  | ok _ =>
    obtain ⟨path, hparse, -, -, -, hafter⟩ := write_eq_ok hwrite
    rcases hafter with ⟨-, -, hafter⟩ | hafter
    · rw [hafter]
    · rw [hafter]
      exact node?_put_of_ne tree _ (h path hparse)

/-! ## Outputs in order -/

theorem writeAll_append {done : List Output} (h : (tree.writeAll done).2 = .ok ())
    (rest : List Output) : tree.writeAll (done ++ rest) = (tree.writeAll done).1.writeAll rest := by
  induction done generalizing tree with
  | nil => rfl
  | cons output others ih =>
    obtain ⟨hfirst, hothers, hafter⟩ := writeAll_cons_eq_ok h
    rw [hafter, ← ih hothers, List.cons_append, writeAll]
    rcases hwrite : tree.write output.path output.content with ⟨after, result⟩
    rw [hwrite] at hfirst
    obtain rfl : result = .ok () := hfirst
    rfl

theorem writeAll_cons_of_error {output : Output} {failure : WriteFailure}
    (h : (tree.write output.path output.content).2 = .error failure) (rest : List Output) :
    tree.writeAll (output :: rest) = (tree, .error (output, failure)) := by
  have hsame := write_error h
  rw [writeAll]
  rcases hwrite : tree.write output.path output.content with ⟨after, result⟩
  rw [hwrite] at h hsame
  obtain rfl : result = .error failure := h
  obtain rfl : after = tree := hsame
  rfl

/-- Writing that stops stops at an output of the list, with those before it written. -/
theorem writeAll_eq_error {outputs : List Output} {output : Output} {failure : WriteFailure}
    (h : (tree.writeAll outputs).2 = .error (output, failure)) :
    ∃ done rest, outputs = done ++ output :: rest ∧ (tree.writeAll done).2 = .ok () ∧
      ((tree.writeAll done).1.write output.path output.content).2 = .error failure := by
  induction outputs generalizing tree with
  | nil => cases h
  | cons first others ih =>
    cases hfirst : (tree.write first.path first.content).2 with
    | error refused =>
      rw [writeAll_cons_of_error hfirst] at h
      cases h
      exact ⟨[], others, rfl, rfl, hfirst⟩
    | ok _ =>
      -- The first output is written, so the rest stops as the whole does.
      have hone : (tree.writeAll [first]).2 = .ok () := by
        rw [writeAll]
        rcases hwrite : tree.write first.path first.content with ⟨after, result⟩
        rw [hwrite] at hfirst
        obtain rfl : result = .ok () := hfirst
        rfl
      have hsplit := writeAll_append hone
      have hall := hsplit others
      rw [List.singleton_append] at hall
      rw [hall] at h
      obtain ⟨done, rest, rfl, hdone, hrefused⟩ := ih h
      have hwritten := hsplit done
      rw [List.singleton_append] at hwritten
      refine ⟨first :: done, rest, rfl, ?_, ?_⟩
      · rw [hwritten]
        exact hdone
      · rw [hwritten]
        exact hrefused

theorem node?_writeAll_of_ne {outputs : List Output}
    (h : ∀ output ∈ outputs, ∀ path, Path.parse output.path = .ok path → place ≠ path.place) :
    (tree.writeAll outputs).1.node? place = tree.node? place := by
  induction outputs generalizing tree with
  | nil => rfl
  | cons output rest ih =>
    have hfirst : (tree.write output.path output.content).1.node? place = tree.node? place :=
      node?_write_of_ne (h output List.mem_cons_self)
    rw [writeAll]
    rcases hwrite : tree.write output.path output.content with ⟨after, result⟩
    rw [hwrite] at hfirst
    cases result with
    | error failure => exact hfirst
    | ok _ =>
      exact (ih fun o ho => h o (List.mem_cons_of_mem _ ho)).trans hfirst

/-- What outputs have left of a tree: each of them is there, and every place to which none of them
leads is as it was. -/
structure LeftBy (before : FileTree) (outputs : List Output) (after : FileTree) : Prop where
  written : ∀ output ∈ outputs, after.read output.path = .ok output.content
  others : ∀ place,
    (∀ output ∈ outputs, ∀ path, Path.parse output.path = .ok path → place ≠ path.place) →
      after.node? place = before.node? place

theorem leftBy_writeAll {outputs : List Output} (h : (tree.writeAll outputs).2 = .ok ())
    (hapart : outputs.Pairwise fun a b => Apart a.path b.path) :
    tree.LeftBy outputs (tree.writeAll outputs).1 where
  written := read_writeAll h hapart
  others _ hplace := node?_writeAll_of_ne hplace

end FileTree

end BenchTables.Files
