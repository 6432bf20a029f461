import BenchTables.Proofs.Experiment.Configuration
import BenchTables.Proofs.Experiment.Selection

/-!
# The selections of a run

A run selects rows by their rates, by variant and kind of client and by rate one, one selection
after another.  Each of them takes all rows of an experiment or none.  So the experiments of the
selected rows are some of those of all rows, in the same order and with the same figures
(`selected_experiments_whole`).
-/

namespace BenchTables

/-- A condition by which rows are selected before they are grouped. -/
inductive RowSelection where
  /-- The rates below a number of repetitions. -/
  | ratesBelow (repetitions : UInt32)
  /-- One variant with a single client or with multiple clients. -/
  | clients (variant : Variant) (multiClient : Bool)
  | rateOne

namespace RowSelection

/-- The rows that are selected. -/
def apply : RowSelection → List Measurement → List Measurement
  | ratesBelow repetitions, rows => keepRates repetitions rows
  | clients variant multiClient, rows => select variant multiClient rows
  | rateOne, rows => rows.filter fun m => m.rate = 1

/-- The rows that are left after one selection after another. -/
def applyAll (selections : List RowSelection) (rows : List Measurement) : List Measurement :=
  selections.foldl (fun kept selection => selection.apply kept) rows

/-- Whether a row is selected. -/
def keeps : RowSelection → Measurement → Bool
  | ratesBelow repetitions, m => m.rate < repetitions.toUInt64
  | clients variant multiClient, m => m.variant = variant ∧ m.multiClient = multiClient
  | rateOne, m => m.rate = 1

theorem apply_eq_filter (selection : RowSelection) (rows : List Measurement) :
    selection.apply rows = rows.filter selection.keeps := by
  cases selection <;> rfl

theorem respects_keeps (selection : RowSelection) : Respects selection.keeps := by
  cases selection with
  | ratesBelow repetitions => exact respects_rates fun r => decide (r < repetitions.toUInt64)
  | clients variant multiClient => exact respects_select variant multiClient
  | rateOne => exact respects_rate 1

theorem applyAll_eq_filter (selections : List RowSelection) (rows : List Measurement) :
    applyAll selections rows = rows.filter fun m => selections.all fun s => s.keeps m := by
  induction selections generalizing rows with
  | nil => exact (List.filter_eq_self.mpr fun _ _ => rfl).symm
  | cons first rest ih =>
    change applyAll rest (first.apply rows) = _
    rw [ih, apply_eq_filter, List.filter_filter]
    refine List.filter_congr fun m _ => ?_
    rw [List.all_cons, Bool.and_comm]

theorem respects_all_keeps (selections : List RowSelection) :
    Respects fun m => selections.all fun s => s.keeps m := by
  intro a b hid
  induction selections with
  | nil => rfl
  | cons first rest ih =>
    dsimp only at ih ⊢
    rw [List.all_cons, List.all_cons, respects_keeps first a b hid, ih]

end RowSelection

variable {keep : Measurement → Bool}

/-! ## Whole experiments -/

/-- The own rows of an experiment are selected all or none. -/
theorem ownRows_filter_eq_or (h : Respects keep) (id : String) (rows : List Measurement) :
    ownRows id (rows.filter keep) = ownRows id rows ∨ ownRows id (rows.filter keep) = [] := by
  rw [ownRows_filter h]
  split
  · exact Or.inl rfl
  · exact Or.inr rfl

/-- The experiments of selected rows are those whose rows are selected. -/
theorem experiments_filter_whole (h : Respects keep) (rows : List Measurement) :
    experiments (rows.filter keep) =
      (experiments rows).filter fun e => ownRows e.id (rows.filter keep) = ownRows e.id rows := by
  rw [experiments_filter h]
  refine List.filter_congr fun e he => ?_
  rw [ownRows_filter h]
  split
  next hany => rw [hany, decide_eq_true rfl]
  next hany => rw [Bool.eq_false_iff.mpr hany, decide_eq_false (ownRows_ne_nil he).symm]

theorem keepRates_keepRates {fewer more : UInt32} (h : fewer ≤ more) (rows : List Measurement) :
    keepRates fewer (keepRates more rows) = keepRates fewer rows := by
  have hle : fewer.toUInt64 ≤ more.toUInt64 := by
    rw [UInt64.le_iff_toNat_le, UInt32.toNat_toUInt64, UInt32.toNat_toUInt64]
    exact UInt32.le_iff_toNat_le.mp h
  rw [keepRates, keepRates, List.filter_filter]
  refine List.filter_congr fun m _ => ?_
  rw [Bool.and_eq_left_iff_imp, decide_eq_true_eq, decide_eq_true_eq]
  exact fun hrate => UInt64.lt_of_lt_of_le hrate hle

/-- Whatever a run selects, it selects all rows of an experiment or none of them, and the
experiments of the selected rows are the experiments of all rows whose rows are selected.  With a
greater number of repetitions there are the same experiments, and perhaps more. -/
theorem selected_experiments_whole (selections : List RowSelection) (rows : List Measurement) :
    (∀ e ∈ experiments rows,
      ownRows e.id (RowSelection.applyAll selections rows) = ownRows e.id rows ∨
        ownRows e.id (RowSelection.applyAll selections rows) = []) ∧
    (experiments (RowSelection.applyAll selections rows) =
      (experiments rows).filter fun e =>
        ownRows e.id (RowSelection.applyAll selections rows) = ownRows e.id rows) ∧
    ∀ fewer more : UInt32, fewer ≤ more →
      (experiments (keepRates fewer rows)).Sublist (experiments (keepRates more rows)) := by
  have hrespects := RowSelection.respects_all_keeps selections
  rw [RowSelection.applyAll_eq_filter]
  refine ⟨fun e _ => ownRows_filter_eq_or hrespects e.id rows,
    experiments_filter_whole hrespects rows, fun fewer more hle => ?_⟩
  -- The rates below the smaller number are selected among those below the greater one.
  have hbelow := experiments_filter_whole (RowSelection.respects_keeps (.ratesBelow fewer))
    (keepRates more rows)
  change experiments (keepRates fewer (keepRates more rows)) = _ at hbelow
  rw [← keepRates_keepRates hle, hbelow]
  exact List.filter_sublist

/-- Two repetitions of an experiment at rate one, with one at rate seven between them. -/
def sevenBetweenRows : List Measurement :=
  [sizedMeasurement 1024 32 64, { sizedMeasurement 1024 32 64 with rate := 7 },
    { sizedMeasurement 1024 32 64 with latency := Vector.replicate 6 1000.0 }]

/-- Fewer repetitions leave one experiment of two, with both of its rows. -/
theorem selected_experiments_whole_sevenBetween :
    (experiments sevenBetweenRows).length = 2 ∧
    (experiments (keepRates 7 sevenBetweenRows)).map Experiment.repetitions = [2] ∧
    (experiments (keepRates 7 sevenBetweenRows)).Sublist
      (experiments (keepRates 8 sevenBetweenRows)) := by
  obtain ⟨-, -, hsublist⟩ := selected_experiments_whole [] sevenBetweenRows
  exact ⟨by decide +kernel, by decide +kernel, hsublist 7 8 (by decide)⟩

end BenchTables
