import BenchTables.Proofs.Text.Padding
import Mathlib.Data.List.DropRight
import Mathlib.Data.Nat.Notation

/-!
# Lines and cells

The text of a table read back as a grid: its lines are what line feeds part (`linesOf`), and the
cells of a line are what its separators part, without the white space around them (`cellsOf`).
Texts that were put together from lines and cells are read back as these (`linesOf_join`,
`cellsOf_intercalate`).
-/

namespace BenchTables.Latex

/-- The lines of a text. -/
def linesOf (text : String) : List String :=
  (text.toList.splitOn '\n').map String.ofList

/-- The cells of a line. -/
def cellsOf (line : String) : List String :=
  (line.toList.splitOn '&').map fun cell => Text.trim (String.ofList cell)

/-! ## Lines -/

theorem linesOf_append {line : String} (h : '\n' ∉ line.toList) (rest : String) :
    linesOf (line ++ "\n" ++ rest) = line :: linesOf rest := by
  have htext : (line ++ "\n" ++ rest).toList = line.toList ++ '\n' :: rest.toList := by
    rw [String.toList_append, String.toList_append, List.append_assoc]
    rfl
  rw [linesOf, htext, List.splitOn_append_cons_self_of_not_mem h, List.map_cons,
    String.ofList_toList]
  rfl

/-- Lines that each end with a line feed, and what follows them. -/
theorem linesOf_join {lines : List String} (h : ∀ line ∈ lines, '\n' ∉ line.toList)
    (rest : String) :
    linesOf (String.join (lines.map (· ++ "\n")) ++ rest) = lines ++ linesOf rest := by
  induction lines with
  | nil => rfl
  | cons line others ih =>
    have hfirst := h line List.mem_cons_self
    have hothers := ih fun l hl => h l (List.mem_cons_of_mem _ hl)
    rw [List.map_cons, String.join_cons, String.append_assoc, linesOf_append hfirst, hothers]
    rfl

/-! ## Cells -/

/-- A text is cut into one part more than it has separators. -/
theorem length_splitOn (c : Char) (text : List Char) :
    (text.splitOn c).length = text.count c + 1 := by
  induction text with
  | nil => rw [List.splitOn_nil]; rfl
  | cons d rest ih =>
    rw [List.splitOn_cons_eq_if_modifyHead, List.count_cons]
    split
    · rw [List.length_cons, ih]
    · rw [List.length_modifyHead, ih]

theorem length_cellsOf (line : String) : (cellsOf line).length = line.toList.count '&' + 1 := by
  rw [cellsOf, List.length_map, length_splitOn]

theorem cellsOf_of_not_mem {cell : String} (h : '&' ∉ cell.toList) :
    cellsOf cell = [Text.trim cell] := by
  rw [cellsOf, List.splitOn_eq_singleton h, List.map_singleton, String.ofList_toList]

theorem cellsOf_append {cell : String} (h : '&' ∉ cell.toList) (rest : String) :
    cellsOf (cell ++ "&" ++ rest) = Text.trim cell :: cellsOf rest := by
  have htext : (cell ++ "&" ++ rest).toList = cell.toList ++ '&' :: rest.toList := by
    rw [String.toList_append, String.toList_append, List.append_assoc]
    rfl
  rw [cellsOf, htext, List.splitOn_append_cons_self_of_not_mem h, List.map_cons,
    String.ofList_toList]
  rfl

theorem isBlank_of_mem_space : ∀ c ∈ " ".toList, Text.isBlank c = true := by
  intro c hc
  rw [List.mem_singleton.mp hc]
  decide

/-- White space before the first cell is not part of it. -/
theorem cellsOf_space (line : String) : cellsOf (" " ++ line) = cellsOf line := by
  have hsplit : (' ' :: line.toList).splitOn '&' =
      (line.toList.splitOn '&').modifyHead (' ' :: ·) := by
    rw [List.splitOn_cons_eq_if_modifyHead, if_neg (by decide)]
  have htrim : ∀ cell : List Char,
      Text.trim (String.ofList (' ' :: cell)) = Text.trim (String.ofList cell) := by
    intro cell
    rw [← Text.trim_append_left isBlank_of_mem_space (String.ofList cell)]
    congr 1
    rw [← String.toList_inj, String.toList_append]
    simp only [String.toList_ofList]
    rfl
  rw [cellsOf, cellsOf, String.toList_append]
  change ((' ' :: line.toList).splitOn '&').map _ = _
  rw [hsplit]
  cases line.toList.splitOn '&' with
  | nil => rfl
  | cons first others =>
    rw [List.modifyHead_cons, List.map_cons, List.map_cons, htrim]

theorem cellsOf_intercalate {cells : List String} (hne : cells ≠ [])
    (h : ∀ cell ∈ cells, '&' ∉ cell.toList) :
    cellsOf (String.intercalate " & " cells) = cells.map Text.trim := by
  induction cells with
  | nil => exact absurd rfl hne
  | cons cell others ih =>
    have hcell := h cell List.mem_cons_self
    cases others with
    | nil => rw [String.intercalate_singleton, cellsOf_of_not_mem hcell, List.map_singleton]
    | cons next rest =>
      have hothers := ih (List.cons_ne_nil _ _) fun c hc => h c (List.mem_cons_of_mem _ hc)
      -- The separator is told with the spaces on its sides, of which each goes to its cell.
      have hparts : String.intercalate " & " (cell :: next :: rest) =
          (cell ++ " ") ++ "&" ++ (" " ++ String.intercalate " & " (next :: rest)) := by
        have hseparator : " & " = " " ++ "&" ++ " " := rfl
        rw [String.intercalate_cons_cons, hseparator]
        simp only [String.append_assoc]
      have hpadded : '&' ∉ (cell ++ " ").toList := by
        rw [String.toList_append, List.mem_append]
        exact not_or.mpr ⟨hcell, by decide⟩
      have htrim : Text.trim (cell ++ " ") = Text.trim cell :=
        Text.trim_append_right isBlank_of_mem_space cell
      rw [hparts, cellsOf_append hpadded, cellsOf_space, hothers, htrim]
      rfl

/-- Cells of one line make one line. -/
theorem lineFeed_not_mem_intercalate {cells : List String}
    (h : ∀ cell ∈ cells, '\n' ∉ cell.toList) :
    '\n' ∉ (String.intercalate " & " cells).toList := by
  induction cells with
  | nil => exact List.not_mem_nil
  | cons cell others ih =>
    have hcell := h cell List.mem_cons_self
    cases others with
    | nil => rwa [String.intercalate_singleton]
    | cons next rest =>
      have hothers := ih fun c hc => h c (List.mem_cons_of_mem _ hc)
      rw [String.intercalate_cons_cons, String.toList_append, String.toList_append,
        List.mem_append, List.mem_append]
      exact not_or.mpr ⟨not_or.mpr ⟨hcell, by decide⟩, hothers⟩

end BenchTables.Latex
