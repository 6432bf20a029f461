import BenchTables.Files.Tree
import Mathlib.Data.Nat.Notation

/-!
# Places and the paths that lead to them

The place that a path leads to depends on the path alone (`Path.place`): the tree only says
whether the way there can be gone.  A way that leads through directories stays as it is when
something that is no directory is put anywhere (`walk_put`).  Of files named by one stem those
with different suffixes have different places (`place_suffixed_ne`).
-/

namespace BenchTables.Files

/-- The place that a path leads to. -/
def Path.place (path : Path) : Place :=
  path.parts.foldl FileTree.stepInto (FileTree.origin path)

namespace FileTree

variable {tree : FileTree} {here place other : Place} {parts more : List String} {node : Node}

/-! ## Walking -/

theorem walk_append (tree : FileTree) (here : Place) (parts more : List String) :
    tree.walk here (parts ++ more) =
      tree.walk here parts >>= fun place => tree.walk place more := by
  induction parts generalizing here with
  | nil => rfl
  | cons part rest ih =>
    rw [List.cons_append, walk, walk]
    split
    · split
      · rfl
      · exact ih _
    · rfl
    · rfl

theorem walk_cons_eq_ok {part : String} (h : tree.walk here (part :: parts) = .ok place) :
    tree.node? here = some .directory ∧ tree.walk (stepInto here part) parts = .ok place := by
  rw [walk] at h
  split at h
  next hnode =>
    refine ⟨hnode, ?_⟩
    split at h
    · cases h
    · exact h
  · cases h
  · cases h

theorem walk_append_eq_ok (h : tree.walk here (parts ++ more) = .ok place) :
    ∃ between, tree.walk here parts = .ok between ∧ tree.walk between more = .ok place := by
  rw [walk_append] at h
  cases hparts : tree.walk here parts with
  | error cause => rw [hparts] at h; cases h
  | ok between =>
    rw [hparts] at h
    exact ⟨between, rfl, h⟩

theorem eq_foldl_of_walk (h : tree.walk here parts = .ok place) :
    place = parts.foldl stepInto here := by
  induction parts generalizing here with
  | nil =>
    cases h
    rfl
  | cons part rest ih => exact ih (walk_cons_eq_ok h).2

/-- A way can be gone as before after something is put where no directory was. -/
theorem walk_put (hother : tree.node? other ≠ some .directory)
    (h : tree.walk here parts = .ok place) : (tree.put other node).walk here parts = .ok place := by
  induction parts generalizing here with
  | nil => exact h
  | cons part rest ih =>
    obtain ⟨hnode, hrest⟩ := walk_cons_eq_ok h
    have hne : here ≠ other := fun heq => hother (heq ▸ hnode)
    -- The way was gone before, so no name on it is too long.
    have hshort : ¬part.utf8ByteSize > longestName := by
      intro hlong
      rw [walk, hnode] at h
      dsimp only at h
      rw [if_pos hlong] at h
      cases h
    rw [walk, node?_put_of_ne tree node hne, hnode]
    dsimp only
    rw [if_neg hshort]
    exact ih hrest

end FileTree

/-! ## Stems and suffixes -/

theorem splitSlashes_append (stem : List Char) : ∃ init last, ∀ suffix, '/' ∉ suffix →
    splitSlashes (stem ++ suffix) = init ++ [last ++ suffix] := by
  -- A suffix without slashes only lengthens the last part, whichever suffix it is.
  induction stem with
  | nil =>
    refine ⟨[], [], fun suffix h => ?_⟩
    induction suffix with
    | nil => rfl
    | cons c rest ih =>
      rw [List.mem_cons, not_or] at h
      rw [List.nil_append, splitSlashes, if_neg (Ne.symm h.1)]
      rw [List.nil_append] at ih
      rw [ih h.2]
      rfl
  | cons c rest ih =>
    obtain ⟨init, last, hsplit⟩ := ih
    by_cases hc : c = '/'
    · refine ⟨[] :: init, last, fun suffix h => ?_⟩
      rw [List.cons_append, splitSlashes, if_pos hc, hsplit suffix h]
      rfl
    · cases init with
      | nil =>
        refine ⟨[], c :: last, fun suffix h => ?_⟩
        rw [List.cons_append, splitSlashes, if_neg hc, hsplit suffix h]
        rfl
      | cons first others =>
        refine ⟨(c :: first) :: others, last, fun suffix h => ?_⟩
        rw [List.cons_append, splitSlashes, if_neg hc, hsplit suffix h]
        rfl

/-- A suffix makes the name of a file: it has no slash, and not only dots. -/
def NamesFile (suffix : String) : Prop :=
  '/' ∉ suffix.toList ∧ suffix.toList.any (· ≠ '.')

instance (suffix : String) : Decidable (NamesFile suffix) :=
  inferInstanceAs (Decidable (_ ∧ _))

theorem NamesFile.exists_ne_dot {suffix : String} (h : NamesFile suffix) :
    ∃ c ∈ suffix.toList, c ≠ '.' := by
  simpa using h.2

theorem NamesFile.toList_ne_nil {suffix : String} (h : NamesFile suffix) : suffix.toList ≠ [] := by
  obtain ⟨c, hc, -⟩ := h.exists_ne_dot
  exact List.ne_nil_of_mem hc

/-- Paths with one stem differ in the name of the file only. -/
theorem parse_suffixed (stem : String) : ∃ absolute parts last, ∀ suffix path, NamesFile suffix →
    Path.parse (suffixed stem suffix) = .ok path →
      path = ⟨absolute, parts ++ [String.ofList (last ++ suffix.toList)], false⟩ := by
  obtain ⟨init, last, hsplit⟩ := splitSlashes_append stem.toList
  refine ⟨stem.toList.head? = some '/', (init.filter (· ≠ [])).map String.ofList, last,
    fun suffix path h hparse => ?_⟩
  have hne := h.toList_ne_nil
  have hhead : (stem.toList ++ suffix.toList).head? = some '/' ↔ stem.toList.head? = some '/' := by
    cases stem.toList with
    | nil =>
      refine ⟨fun hslash => absurd (List.mem_of_mem_head? hslash) ?_, fun hslash => by cases hslash⟩
      exact h.1
    | cons c rest => rfl
  have hlast : (stem.toList ++ suffix.toList).getLast? ≠ some '/' := by
    rw [List.getLast?_append, List.getLast?_eq_some_getLast hne, Option.some_or]
    exact fun hslash => h.1 (Option.some.inj hslash ▸ List.getLast_mem hne)
  rw [Path.parse, suffixed, String.toList_append] at hparse
  split at hparse
  · cases hparse
  split at hparse
  · cases hparse
  split at hparse
  · cases hparse
  · cases hparse
    have hfilter : [last ++ suffix.toList].filter (· ≠ []) = [last ++ suffix.toList] := by
      simp [hne]
    rw [hsplit _ h.1, List.filter_append, hfilter, List.map_append]
    simp only [hhead, hlast, decide_false]
    rfl

theorem stepInto_of_namesFile {suffix : String} (h : NamesFile suffix) (here : Place)
    (last : List Char) : FileTree.stepInto here (String.ofList (last ++ suffix.toList)) =
      here ++ [String.ofList (last ++ suffix.toList)] := by
  -- A name with a character other than a dot is neither the dot nor the two dots.
  obtain ⟨c, hc, hdot⟩ := h.exists_ne_dot
  have hname : ∀ dots : String, (∀ d ∈ dots.toList, d = '.') →
      String.ofList (last ++ suffix.toList) ≠ dots := by
    rintro dots hdots rfl
    exact hdot (hdots c (by simp [hc]))
  rw [FileTree.stepInto, if_neg (hname "." (by simp)), if_neg (hname ".." (by simp))]

/-- Files with one stem and different suffixes have different places. -/
theorem place_suffixed_ne {stem s₁ s₂ : String} {p₁ p₂ : Path} (h₁ : NamesFile s₁)
    (h₂ : NamesFile s₂) (hparse₁ : Path.parse (suffixed stem s₁) = .ok p₁)
    (hparse₂ : Path.parse (suffixed stem s₂) = .ok p₂) (hne : s₁ ≠ s₂) : p₁.place ≠ p₂.place := by
  obtain ⟨absolute, parts, last, hparse⟩ := parse_suffixed stem
  rw [hparse s₁ p₁ h₁ hparse₁, hparse s₂ p₂ h₂ hparse₂, Path.place, Path.place, List.foldl_append,
    List.foldl_append, List.foldl_cons, List.foldl_cons, stepInto_of_namesFile h₁,
    stepInto_of_namesFile h₂]
  intro heq
  have hlast := List.append_cancel_left heq
  rw [List.cons.injEq, String.ofList_inj, List.append_cancel_left_eq, String.toList_inj] at hlast
  exact hne hlast.1

end BenchTables.Files
