import BenchTables.Proofs.Latex.RateLines
import BenchTables.Proofs.Latex.RoundTripLayout

/-!
# The columns of the bandwidth table

The head of the table names five sizes, one over each column of figures, but a line shows the
figures that its rate has, one after the other. So the figure in a column is that of the size that
stands there among the sizes of the rate, and it is under its own size exactly when the rate has
all smaller sizes (`bandwidthTable_columns`); a gap moves the figures after it to the left
(`shifted_gapRows`).
-/

namespace BenchTables.Latex

/-- Rows of the sizes that the head of the table names, of which none shows the same as another. -/
structure IsHeaded (rows : List BandwidthRow) : Prop where
  sizes : ∀ row ∈ rows, row.dbSize ∈ headedSizes
  once : rows.Pairwise fun a b => ¬(a.dbSize = b.dbSize ∧ a.rate = b.rate)

/-- There is a figure for a rate and a size. -/
def HasFigure (rows : List BandwidthRow) (rate size : UInt64) : Prop :=
  ∃ row ∈ rows, row.rate = rate ∧ row.dbSize = size

instance (rows : List BandwidthRow) (rate size : UInt64) : Decidable (HasFigure rows rate size) :=
  inferInstanceAs (Decidable (∃ row ∈ rows, row.rate = rate ∧ row.dbSize = size))

/-- A line under the head of the table. -/
structure IsUnderHead (rows : List BandwidthRow) (line : UInt64 × List BandwidthRow) : Prop where
  rows_of_rate : ∀ row ∈ line.2, row ∈ rows ∧ row.rate = line.1
  sizes : line.2.map (·.dbSize) = headedSizes.filter (HasFigure rows line.1 ·)
  /-- The figure in a column is that of the size over it if no smaller size is missing. -/
  column : ∀ (j : ℕ) row, line.2[j]? = some row →
    (headedSizes[j]? = some row.dbSize ↔
      ∀ size ∈ headedSizes, size < row.dbSize → HasFigure rows line.1 size)

/-! ## Places in ascending lists -/

section Ascending

variable {l : List UInt64} {x : UInt64} {j : ℕ}

/-- A member of an ascending list stands after as many as are smaller. -/
theorem getElem?_eq_some_iff_of_ascending (h : l.Pairwise (· < ·)) :
    l[j]? = some x ↔ x ∈ l ∧ l.countP (· < x) = j := by
  induction l generalizing j with
  | nil => simp
  | cons first rest ih =>
    obtain ⟨hfirst, hrest⟩ := List.pairwise_cons.mp h
    -- The first is smaller than all others, so it is the one that stands after none.
    have hcount : (first :: rest).countP (· < first) = 0 := by
      refine List.countP_eq_zero.mpr fun y hy => ?_
      rcases List.mem_cons.mp hy with rfl | hy
      · simp
      · simpa using UInt64.lt_asymm (hfirst y hy)
    have hlater : x ∈ rest → (first :: rest).countP (· < x) = rest.countP (· < x) + 1 :=
      fun hx => List.countP_cons_of_pos (decide_eq_true (hfirst x hx))
    cases j with
    | zero =>
      rw [List.getElem?_cons_zero, Option.some_inj]
      constructor
      · rintro rfl
        exact ⟨List.mem_cons_self, hcount⟩
      · rintro ⟨hx, hzero⟩
        rcases List.mem_cons.mp hx with rfl | hx
        · rfl
        · rw [hlater hx] at hzero
          cases hzero
    | succ j =>
      rw [List.getElem?_cons_succ, ih hrest]
      constructor
      · rintro ⟨hx, hj⟩
        exact ⟨List.mem_cons_of_mem _ hx, by rw [hlater hx, hj]⟩
      · rintro ⟨hx, hsucc⟩
        rcases List.mem_cons.mp hx with rfl | hx
        · rw [hcount] at hsucc
          cases hsucc
        · rw [hlater hx] at hsucc
          exact ⟨hx, Nat.succ_injective hsucc⟩

/-- A selection from an ascending list leaves a member in its place exactly when it leaves out none
that is smaller. -/
theorem getElem?_filter_iff_of_ascending (h : l.Pairwise (· < ·)) {p : UInt64 → Bool}
    (hx : (l.filter p)[j]? = some x) : l[j]? = some x ↔ ∀ y ∈ l, y < x → p y := by
  obtain ⟨hmem, hcount⟩ := (getElem?_eq_some_iff_of_ascending (h.filter p)).mp hx
  have hmem' : x ∈ l := (List.mem_filter.mp hmem).1
  have hselected : (l.filter p).countP (· < x) = ((l.filter (· < x)).filter p).length := by
    rw [List.countP_eq_length_filter, List.filter_comm]
  rw [getElem?_eq_some_iff_of_ascending h, ← hcount, hselected, List.countP_eq_length_filter,
    eq_comm, List.length_filter_eq_length_iff]
  simp only [hmem', true_and, List.mem_filter, decide_eq_true_eq, and_imp]

end Ascending

/-! ## Lines -/

variable {rows : List BandwidthRow} {line : UInt64 × List BandwidthRow} {rate : UInt64}

theorem pairwise_headedSizes : headedSizes.Pairwise (· < ·) := by
  decide

theorem mem_rowsAtRate {row : BandwidthRow} :
    row ∈ rowsAtRate rate rows ↔ row ∈ rows ∧ row.rate = rate := by
  rw [(rowsAtRate_perm rate rows).mem_iff, List.mem_filter, decide_eq_true_eq]

/-- The rows of one rate are of different sizes. -/
theorem IsHeaded.pairwise_rowsAtRate (h : IsHeaded rows) (rate : UInt64) :
    (rowsAtRate rate rows).Pairwise fun a b => a.dbSize < b.dbSize := by
  have hdistinct : (rowsAtRate rate rows).Pairwise
      fun a b => ¬(a.dbSize = b.dbSize ∧ a.rate = b.rate) := by
    rw [(rowsAtRate_perm rate rows).pairwise_iff
      fun hne ⟨hsize, hrate⟩ => hne ⟨hsize.symm, hrate.symm⟩]
    exact h.once.filter _
  refine ((Latex.pairwise_rowsAtRate rate rows).and hdistinct).imp_of_mem
    fun {a b} ha hb ⟨hle, hne⟩ => ?_
  have hrate : a.rate = b.rate :=
    (mem_rowsAtRate.mp ha).2.trans (mem_rowsAtRate.mp hb).2.symm
  exact UInt64.lt_of_le_of_ne hle fun hsize => hne ⟨hsize, hrate⟩

theorem IsHeaded.sizes_rowsAtRate (h : IsHeaded rows) (rate : UInt64) :
    (rowsAtRate rate rows).map (·.dbSize) = headedSizes.filter (HasFigure rows rate ·) := by
  have hascending : ((rowsAtRate rate rows).map (·.dbSize)).Pairwise (· < ·) :=
    List.pairwise_map.mpr (h.pairwise_rowsAtRate rate)
  have hselected : (headedSizes.filter (HasFigure rows rate ·)).Pairwise (· < ·) :=
    pairwise_headedSizes.filter _
  have hne : ∀ {a b : UInt64}, a < b → a ≠ b := fun hlt heq => UInt64.lt_irrefl _ (heq ▸ hlt)
  have hperm := (List.perm_ext_iff_of_nodup (hascending.imp hne) (hselected.imp hne)).mpr
    fun size => by
      rw [List.mem_map, List.mem_filter, decide_eq_true_eq]
      simp only [mem_rowsAtRate, and_assoc]
      constructor
      · rintro ⟨row, hrow, hrate, rfl⟩
        exact ⟨h.sizes row hrow, row, hrow, hrate, rfl⟩
      · rintro ⟨-, row, hrow, hrate, hsize⟩
        exact ⟨row, hrow, hrate, hsize⟩
  exact hperm.eq_of_pairwise (fun a b _ _ hab hba => absurd hba (UInt64.lt_asymm hab))
    hascending hselected

theorem IsHeaded.isUnderHead (h : IsHeaded rows) (hline : line ∈ rateLines rows) :
    IsUnderHead rows line := by
  obtain ⟨-, hshown⟩ := mem_rateLines.mp hline
  have hsizes : line.2.map (·.dbSize) = headedSizes.filter (HasFigure rows line.1 ·) :=
    hshown ▸ h.sizes_rowsAtRate line.1
  refine ⟨fun row hrow => mem_rowsAtRate.mp (hshown ▸ hrow), hsizes, fun j row hrow => ?_⟩
  have hplace : (headedSizes.filter (HasFigure rows line.1 ·))[j]? = some row.dbSize := by
    rw [← hsizes, List.getElem?_map, hrow, Option.map_some]
  rw [getElem?_filter_iff_of_ascending pairwise_headedSizes hplace]
  simp only [decide_eq_true_eq]

/-! ## The table -/

theorem forall₂_isLabel_heads :
    List.Forall₂ IsLabel headedSizes (headedSizes.filterMap powerOfTwo?) := by
  have hheads : ∀ sizes : List UInt64, 0 ∉ sizes →
      List.Forall₂ IsLabel sizes (sizes.filterMap powerOfTwo?) := by
    intro sizes hsizes
    induction sizes with
    | nil => exact .nil
    | cons size rest ih =>
      obtain ⟨hsize, hrest⟩ := not_or.mp (List.mem_cons.not.mp hsizes)
      have hlabel : powerOfTwo? size = some _ := if_neg (Ne.symm hsize)
      rw [List.filterMap_cons_some hlabel]
      exact .cons (isLabel_of_powerOfTwo? hlabel) (ih hrest)
  exact hheads headedSizes (by decide)

/-- The text of the table has a figure for each row of a line, as a cell of its own, and the figure
in a column is under its own size exactly when the rate has rows of all smaller sizes. -/
theorem bandwidthTable_columns (labels : RowLabels) {noAuth auth : List BandwidthRow}
    (hnoAuth : IsHeaded noAuth) (hauth : IsHeaded auth) :
    (∃ heads, List.Forall₂ IsLabel headedSizes heads ∧
      bandwidthTable labels noAuth auth =
        openTable "0.8" "0.65\\textwidth" "lrrrrr" ++ "\\\\\\toprule\n& " ++
          command "multicolumn" ["5", "c", "Number of clients"] ++ "\\\\\n& " ++
          String.intercalate " & " heads ++ "\\\\\\midrule\n" ++
          String.join ((rateLines noAuth).map (lineText labels.noAuth)) ++ "\\addlinespace\n" ++
          String.join ((rateLines auth).map (lineText labels.auth)) ++ "\\addlinespace\n" ++
          String.join (referenceRows.map (· ++ "\n")) ++ closeTable) ∧
    (∀ line ∈ rateLines noAuth, IsUnderHead noAuth line) ∧
    (∀ line ∈ rateLines auth, IsUnderHead auth line) ∧
    ∀ row, StaysInCell (quantity (BandwidthRow.perRequest row) .kibibyte) := by
  refine ⟨⟨headedSizes.filterMap powerOfTwo?, forall₂_isLabel_heads, ?_⟩,
    fun line => hnoAuth.isUnderHead, fun line => hauth.isUnderHead,
    fun row => staysInCell_quantity _ _⟩
  have htop : "\\\\\\toprule\n& " = rowEnd ++ "\\toprule\n" ++ "& " := rfl
  have hnext : "\\\\\n& " = rowEnd ++ "\n" ++ "& " := rfl
  have hrule : "\\\\\\midrule\n" = rowEnd ++ "\\midrule\n" := rfl
  unfold bandwidthTable bandwidthHead
  rw [variantLines_eq, variantLines_eq, htop, hnext, hrule]
  simp only [String.append_assoc]
  rfl

/-- A rate with rows of the first and the third size of the head. -/
def gapRows : List BandwidthRow :=
  [⟨"", 1024, 1, #v[1.0, 1.0]⟩, ⟨"", 16384, 1, #v[3.0, 3.0]⟩]

theorem isHeaded_gapRows : IsHeaded gapRows where
  sizes := by decide
  once := by decide

theorem rateLines_gapRows : rateLines gapRows = [(1, gapRows)] := by
  have hrates : firstAppearances (gapRows.map (·.rate)) = [1] := by decide +kernel
  have hrows : rowsAtRate 1 gapRows = gapRows := by
    unfold rowsAtRate
    rw [List.mergeSort_of_pairwise (by decide)]
    rfl
  rw [rateLines, hrates, List.map_singleton, hrows]

theorem bandwidthTable_columns_gapRows :
    IsHeaded gapRows ∧ (∀ line ∈ rateLines gapRows, IsUnderHead gapRows line) :=
  ⟨isHeaded_gapRows, (bandwidthTable_columns {} isHeaded_gapRows isHeaded_gapRows).2.1⟩

/-- The figure of the third size is in the column of the second, which has no row. -/
theorem shifted_gapRows :
    ¬∀ rows, IsHeaded rows → ∀ line ∈ rateLines rows, ∀ (j : ℕ) row, line.2[j]? = some row →
      ∃ own ∈ rows, own.rate = line.1 ∧ headedSizes[j]? = some own.dbSize ∧
        BandwidthRow.perRequest row = BandwidthRow.perRequest own := by
  intro h
  have hline : (1, gapRows) ∈ rateLines gapRows := rateLines_gapRows ▸ List.mem_singleton_self _
  obtain ⟨own, hown, -, hsize, -⟩ := h gapRows isHeaded_gapRows _ hline 1 _ rfl
  have hmissing : ∀ row ∈ gapRows, headedSizes[1]? ≠ some row.dbSize := by decide
  exact hmissing own hown hsize

end BenchTables.Latex
