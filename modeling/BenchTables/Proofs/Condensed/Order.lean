import BenchTables.Proofs.Experiment.Grouping
import BenchTables.Proofs.Sorting
import BenchTables.Condensed.Tables

/-!
# The order of experiments in tables

Both orders by which tables are sorted are linear orders of keys, with ties.  As experiments come by
ascending identifiers, ties stay so (`pairwise_bandwidth_order`).
-/

namespace BenchTables

namespace Experiment

variable {a b c : Experiment}

theorem sizeLE_iff : a.sizeLE b ↔ totalOrderKey a.dbSize ≤ totalOrderKey b.dbSize := by
  rw [sizeLE, totalLE, decide_eq_true_iff]

theorem sizeRateLE_iff :
    a.sizeRateLE b ↔ totalOrderKey a.dbSize < totalOrderKey b.dbSize ∨
      totalOrderKey a.dbSize = totalOrderKey b.dbSize ∧
        totalOrderKey a.rate ≤ totalOrderKey b.rate := by
  unfold sizeRateLE totalLE
  split
  next h => simp [h]
  next h => rw [decide_eq_true_iff, le_iff_lt_or_eq]; simp [h]

theorem sizeRateLE_trans (a b c : Experiment) (hab : a.sizeRateLE b) (hbc : b.sizeRateLE c) :
    a.sizeRateLE c := by
  rw [sizeRateLE_iff] at hab hbc ⊢
  omega

theorem sizeRateLE_total (a b : Experiment) : a.sizeRateLE b || b.sizeRateLE a := by
  rw [Bool.or_eq_true, sizeRateLE_iff, sizeRateLE_iff]
  omega

/-- Between experiments of one rate the size alone decides. -/
theorem sizeRateLE_iff_of_rate_eq (h : a.rate = b.rate) : a.sizeRateLE b ↔ a.sizeLE b := by
  rw [sizeRateLE_iff, sizeLE_iff, h]
  omega

end Experiment

/-- The rows of a bandwidth table come by size and rate, and ties by identifier. -/
theorem pairwise_bandwidth_order (rows : List Measurement) :
    ((experiments rows).mergeSort Experiment.sizeRateLE).Pairwise fun a b =>
      a.sizeRateLE b ∧ (b.sizeRateLE a → a.id < b.id) :=
  pairwise_mergeSort_ties Experiment.sizeRateLE_trans Experiment.sizeRateLE_total
    (pairwise_id_experiments rows)

end BenchTables
