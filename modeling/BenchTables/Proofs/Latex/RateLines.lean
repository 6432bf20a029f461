import BenchTables.Latex.Bandwidth
import BenchTables.Proofs.Sorting
import Mathlib.Data.List.Perm.Basic

/-!
# The lines of the bandwidth table

A variant has one line for each of its rates, in the order in which the rates appear in its rows,
and the line of a rate has one figure for each row of the rate, by ascending size (`IsArranged`).
So the figures of all lines are those of all rows, each once, and the text of the table has the
lines of either variant in a place of their own (`bandwidthTable_lines`).
-/

namespace BenchTables.Latex

/-- The lines of rows: a line for each rate, with the rows that it shows. -/
structure IsArranged (rows : List BandwidthRow) (lines : List (UInt64 × List BandwidthRow)) :
    Prop where
  rates : ∀ rate, rate ∈ lines.map Prod.fst ↔ rate ∈ rows.map (·.rate)
  /-- The first row of a rate comes before those of the rates of later lines. -/
  order : (lines.map Prod.fst).Pairwise fun a b =>
    (rows.map (·.rate)).idxOf a < (rows.map (·.rate)).idxOf b
  complete : ∀ line ∈ lines, line.2.Perm (rows.filter fun row => row.rate = line.1)
  ascending : ∀ line ∈ lines, line.2.Pairwise fun a b => a.dbSize ≤ b.dbSize
  /-- Rows of one size stand in the line as they stand among the rows. -/
  stable : ∀ line ∈ lines, ∀ size, (line.2.filter fun row => row.dbSize = size) =
    rows.filter fun row => row.rate = line.1 ∧ row.dbSize = size

/-- The text of a line: the name of the variant, the rate, and each figure after a separator. -/
def lineText (label : String) (line : UInt64 × List BandwidthRow) : String :=
  labelCommand label ++ " (" ++ Decimal.wordText line.1 ++ ")" ++
    String.join ((line.2.map fun row => quantity (BandwidthRow.perRequest row) .kibibyte).map
      (" & " ++ ·)) ++ " \\\\\n"

variable {rows : List BandwidthRow} {lines : List (UInt64 × List BandwidthRow)}
  {line : UInt64 × List BandwidthRow} {rate : UInt64}

/-! ## Rates -/

/-- Distinct values stand in the order of their first appearance. -/
theorem pairwise_firstAppearances {α : Type} [DecidableEq α] (l : List α) :
    (firstAppearances l).Pairwise fun a b => l.idxOf a < l.idxOf b := by
  induction l with
  | nil => exact .nil
  | cons x rest ih =>
    rw [firstAppearances, List.pairwise_cons]
    constructor
    · intro b hb
      have hne : b ≠ x := of_decide_eq_true (List.mem_filter.mp hb).2
      rw [List.idxOf_cons_self, List.idxOf_cons_ne _ hne.symm]
      exact Nat.succ_pos _
    · refine (ih.filter (· ≠ x)).imp_of_mem fun {a b} ha hb hab => ?_
      have hax : a ≠ x := of_decide_eq_true (List.mem_filter.mp ha).2
      have hbx : b ≠ x := of_decide_eq_true (List.mem_filter.mp hb).2
      rw [List.idxOf_cons_ne _ hax.symm, List.idxOf_cons_ne _ hbx.symm]
      exact Nat.succ_lt_succ hab

/-- Rows fall apart into those of each rate. -/
theorem perm_flatMap_rates {rates : List UInt64} (hnodup : rates.Nodup)
    (hrates : ∀ row ∈ rows, row.rate ∈ rates) :
    (rates.flatMap fun rate => rows.filter fun row => row.rate = rate).Perm rows := by
  induction rates generalizing rows with
  | nil =>
    rw [List.eq_nil_iff_forall_not_mem.mpr fun row hrow => List.not_mem_nil (hrates row hrow)]
    rfl
  | cons first rest ih =>
    obtain ⟨hfirst, hrest⟩ := List.nodup_cons.mp hnodup
    -- The rows of the other rates are found among those that are not of the first one.
    have hothers : (rest.flatMap fun rate => rows.filter fun row => row.rate = rate) =
        rest.flatMap fun rate => (rows.filter fun row => !decide (row.rate = first)).filter
          fun row => row.rate = rate := by
      refine List.flatMap_congr fun rate hrate => ?_
      have hne : rate ≠ first := fun heq => hfirst (heq ▸ hrate)
      rw [List.filter_filter]
      refine List.filter_congr fun row _ => ?_
      by_cases h : row.rate = rate
      · simp [h, hne]
      · simp [h]
    have hsub : ∀ row ∈ rows.filter fun row => !decide (row.rate = first), row.rate ∈ rest := by
      intro row hrow
      obtain ⟨hmem, hne⟩ := List.mem_filter.mp hrow
      exact (List.mem_cons.mp (hrates row hmem)).resolve_left (by simpa using hne)
    rw [List.flatMap_cons, hothers]
    exact ((ih hrest hsub).append_left _).trans (List.filter_append_perm _ rows)

/-! ## Lines -/

theorem rowsAtRate_perm (rate : UInt64) (rows : List BandwidthRow) :
    (rowsAtRate rate rows).Perm (rows.filter fun row => row.rate = rate) :=
  List.mergeSort_perm _ _

theorem size_le_trans (a b c : BandwidthRow) (hab : decide (a.dbSize ≤ b.dbSize) = true)
    (hbc : decide (b.dbSize ≤ c.dbSize) = true) : decide (a.dbSize ≤ c.dbSize) = true :=
  decide_eq_true (UInt64.le_trans (of_decide_eq_true hab) (of_decide_eq_true hbc))

theorem size_le_total (a b : BandwidthRow) :
    (decide (a.dbSize ≤ b.dbSize) || decide (b.dbSize ≤ a.dbSize)) = true := by
  simpa using UInt64.le_total a.dbSize b.dbSize

theorem pairwise_rowsAtRate (rate : UInt64) (rows : List BandwidthRow) :
    (rowsAtRate rate rows).Pairwise fun a b => a.dbSize ≤ b.dbSize :=
  (List.pairwise_mergeSort size_le_trans size_le_total _).imp of_decide_eq_true

theorem filter_rowsAtRate (rate : UInt64) (rows : List BandwidthRow) (size : UInt64) :
    ((rowsAtRate rate rows).filter fun row => row.dbSize = size) =
      rows.filter fun row => row.rate = rate ∧ row.dbSize = size := by
  -- The rows of a size are those that tie with any row of the size.
  have hties := filter_ties_mergeSort size_le_trans size_le_total
    ⟨"", size, rate, Vector.replicate 2 0.0⟩ (rows.filter fun row => row.rate = rate)
  have hsize : ∀ row : BandwidthRow,
      (decide (size ≤ row.dbSize) && decide (row.dbSize ≤ size)) = decide (row.dbSize = size) := by
    intro row
    rw [← Bool.decide_and, decide_eq_decide, eq_comm]
    exact UInt64.le_antisymm_iff.symm
  simp only [hsize] at hties
  rw [rowsAtRate, hties, List.filter_filter]
  refine List.filter_congr fun row _ => ?_
  rw [← Bool.decide_and, decide_eq_decide]
  exact and_comm

theorem mem_rateLines :
    line ∈ rateLines rows ↔ line.1 ∈ rows.map (·.rate) ∧ line.2 = rowsAtRate line.1 rows := by
  obtain ⟨rate, shown⟩ := line
  rw [rateLines, List.mem_map]
  simp only [mem_firstAppearances, Prod.mk.injEq]
  constructor
  · rintro ⟨rate, hrate, rfl, rfl⟩
    exact ⟨hrate, rfl⟩
  · rintro ⟨hrate, rfl⟩
    exact ⟨rate, hrate, rfl, rfl⟩

theorem map_fst_rateLines (rows : List BandwidthRow) :
    (rateLines rows).map Prod.fst = firstAppearances (rows.map (·.rate)) := by
  rw [rateLines, List.map_map]
  exact List.map_id' _

theorem isArranged_rateLines (rows : List BandwidthRow) : IsArranged rows (rateLines rows) where
  rates rate := by rw [map_fst_rateLines, mem_firstAppearances]
  order := map_fst_rateLines rows ▸ pairwise_firstAppearances _
  complete line hline := (mem_rateLines.mp hline).2 ▸ rowsAtRate_perm line.1 rows
  ascending line hline := (mem_rateLines.mp hline).2 ▸ pairwise_rowsAtRate line.1 rows
  stable line hline size := (mem_rateLines.mp hline).2 ▸ filter_rowsAtRate line.1 rows size

/-- The rows of all lines are the rows, each once. -/
theorem IsArranged.perm (h : IsArranged rows lines) : (lines.flatMap Prod.snd).Perm rows := by
  have hnodup : (lines.map Prod.fst).Nodup := h.order.imp fun hlt heq => by
    rw [heq] at hlt
    exact Nat.lt_irrefl _ hlt
  have hlines : (lines.flatMap Prod.snd).Perm
      ((lines.map Prod.fst).flatMap fun rate => rows.filter fun row => row.rate = rate) := by
    rw [List.flatMap_map]
    exact List.Perm.flatMap_left _ h.complete
  exact hlines.trans (perm_flatMap_rates hnodup fun row hrow =>
    (h.rates row.rate).mpr (List.mem_map_of_mem hrow))

/-! ## Texts -/

/-- Parts with a separator in front of each of them, or between them and once in front. -/
theorem join_separated {parts : List String} (hne : parts ≠ []) (separator : String) :
    String.join (parts.map (separator ++ ·)) =
      separator ++ String.intercalate separator parts := by
  induction parts with
  | nil => exact absurd rfl hne
  | cons part rest ih =>
    rw [List.map_cons, String.join_cons]
    cases rest with
    | nil => simp [String.join]
    | cons next others =>
      rw [ih (List.cons_ne_nil _ _), String.intercalate_cons_cons, String.append_assoc,
        String.append_assoc]

theorem rateLine_eq (label : String) (hne : line.2 ≠ []) :
    rateLine label line = lineText label line := by
  have hopen : ") & " = ")" ++ " & " := rfl
  have hclose : " \\\\\n" = " " ++ rowEnd ++ "\n" := rfl
  unfold rateLine lineText
  rw [join_separated (List.map_eq_nil_iff.not.mpr hne)]
  simp only [hopen, hclose, String.append_assoc]

theorem rows_ne_nil_of_mem_rateLines (h : line ∈ rateLines rows) : line.2 ≠ [] := by
  obtain ⟨hrate, hshown⟩ := mem_rateLines.mp h
  obtain ⟨row, hrow, hrow'⟩ := List.mem_map.mp hrate
  have hmem : row ∈ line.2 := by
    rw [hshown, (rowsAtRate_perm _ _).mem_iff, List.mem_filter]
    exact ⟨hrow, by simpa using hrow'⟩
  exact List.ne_nil_of_mem hmem

theorem variantLines_eq (label : String) (rows : List BandwidthRow) :
    variantLines label rows = String.join ((rateLines rows).map (lineText label)) := by
  rw [variantLines, List.map_congr_left fun line hline =>
    rateLine_eq label (rows_ne_nil_of_mem_rateLines hline)]

/-- Nothing is lost or doubled in the bandwidth table, whatever the variants are called.  The lines
of either variant are arranged from its own rows, and those without authentication come first. -/
theorem bandwidthTable_lines (labels : RowLabels) (noAuth auth : List BandwidthRow) :
    (∀ rows, IsArranged rows (rateLines rows) ∧ ((rateLines rows).flatMap Prod.snd).Perm rows) ∧
    bandwidthTable labels noAuth auth =
      bandwidthHead ++ String.join ((rateLines noAuth).map (lineText labels.noAuth)) ++
        "\\addlinespace\n" ++ String.join ((rateLines auth).map (lineText labels.auth)) ++
        "\\addlinespace\n" ++ String.join (referenceRows.map (· ++ "\n")) ++ closeTable := by
  refine ⟨fun rows => ⟨isArranged_rateLines rows, (isArranged_rateLines rows).perm⟩, ?_⟩
  unfold bandwidthTable
  rw [variantLines_eq, variantLines_eq]
  rfl

end BenchTables.Latex
