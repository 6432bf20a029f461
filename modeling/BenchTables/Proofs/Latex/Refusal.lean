import BenchTables.Latex.RoundTrip
import BenchTables.Proofs.Outcome

/-!
# What the round-trip table is refused for

Whether the round-trip table can be made, and what it is refused for, is told by the sizes and the
rates of its rows alone (`refusal_roundTripTable`): quantities are printed but never looked at.
-/

namespace BenchTables

/-! ## Refusals -/

section Refusal

variable {ε α β γ : Type}

/-- The error of an outcome, if it is one. -/
def refusal : Except ε α → Option ε
  | .error e => some e
  | .ok _ => none

theorem refusal_eq_some_iff {x : Except ε α} {e : ε} : refusal x = some e ↔ x = .error e := by
  cases x with
  | error e' => simp [refusal]
  | ok a => simp [refusal]

theorem refusal_eq_none_iff {x : Except ε α} : refusal x = none ↔ ∃ a, x = .ok a := by
  cases x with
  | error e => simp [refusal]
  | ok a => simp [refusal]

theorem refusal_pure_eq_refusal_pure (a : α) (b : β) :
    refusal (pure a : Except ε α) = refusal (pure b : Except ε β) := rfl

theorem refusal_bind {δ : Type} {x : Except ε α} {y : Except ε β} {f : α → Except ε γ}
    {g : β → Except ε δ} (hfirst : refusal x = refusal y)
    (hrest : ∀ a b, x = .ok a → y = .ok b → refusal (f a) = refusal (g b)) :
    refusal (x >>= f) = refusal (y >>= g) := by
  cases x with
  | error e =>
    rw [refusal_eq_some_iff.mp hfirst.symm]
    rfl
  | ok a =>
    obtain ⟨b, rfl⟩ := refusal_eq_none_iff.mp hfirst.symm
    exact hrest a b rfl rfl

theorem refusal_mapM {f : α → Except ε β} {g : α → Except ε γ} {l : List α}
    (h : ∀ a ∈ l, refusal (f a) = refusal (g a)) : refusal (l.mapM f) = refusal (l.mapM g) := by
  induction l with
  | nil => rfl
  | cons a rest ih =>
    rw [List.mapM_cons, List.mapM_cons]
    refine refusal_bind (h a List.mem_cons_self) fun _ _ _ _ => ?_
    exact refusal_bind (ih fun b hb => h b (List.mem_cons_of_mem _ hb)) fun _ _ _ _ =>
      refusal_pure_eq_refusal_pure ..

end Refusal

namespace Latex

/-! ## Sizes and rates -/

/-- The size and the rate of each row. -/
def sizesAndRates (rows : List LatencyRow) : List (UInt64 × UInt64) :=
  rows.map fun row => (row.dbSize, row.rate)

theorem map_dbSize_eq (rows : List LatencyRow) :
    rows.map (·.dbSize) = (sizesAndRates rows).map Prod.fst := by
  rw [sizesAndRates, List.map_map]
  rfl

theorem map_rate_eq (rows : List LatencyRow) :
    rows.map (·.rate) = (sizesAndRates rows).map Prod.snd := by
  rw [sizesAndRates, List.map_map]
  rfl

theorem rowAt?_eq_none_iff {rows : List LatencyRow} {dbSize rate : UInt64} :
    rowAt? rows dbSize rate = none ↔ (dbSize, rate) ∉ sizesAndRates rows := by
  rw [rowAt?, List.find?_eq_none, sizesAndRates]
  simp

theorem refusal_lineAt (rowsOf : Variant → List LatencyRow) (dbSize rate : UInt64)
    (variant : Variant) : refusal (lineAt rowsOf dbSize rate variant) =
      if (dbSize, rate) ∈ sizesAndRates (rowsOf variant) then none
      else some (.missingMeasurement variant dbSize rate) := by
  rw [lineAt]
  cases h : rowAt? (rowsOf variant) dbSize rate with
  | none => rw [if_neg (rowAt?_eq_none_iff.mp h)]; rfl
  | some row =>
    have hmem : (dbSize, rate) ∈ sizesAndRates (rowsOf variant) :=
      Decidable.of_not_not fun hnot => by
        rw [rowAt?_eq_none_iff.mpr hnot] at h
        cases h
    rw [if_pos hmem]
    rfl

variable {noAuth noAuth' auth auth' : List LatencyRow}

theorem refusal_blockAt (hnoAuth : sizesAndRates noAuth = sizesAndRates noAuth')
    (hauth : sizesAndRates auth = sizesAndRates auth') (rates : List UInt64) (dbSize : UInt64) :
    refusal (blockAt noAuth auth rates dbSize) = refusal (blockAt noAuth' auth' rates dbSize) := by
  rw [blockAt, blockAt]
  refine refusal_bind rfl fun _ _ _ _ => ?_
  refine refusal_bind (refusal_mapM fun place _ => ?_) fun _ _ _ _ =>
    refusal_pure_eq_refusal_pure ..
  obtain ⟨rate, variant⟩ := place
  rw [refusal_lineAt, refusal_lineAt]
  cases variant
  · rw [hnoAuth]
  · rw [hauth]

/-- Rows of equal sizes and rates are refused for the same reason, or both accepted. -/
theorem refusal_roundTripTable (labels : RowLabels)
    (hnoAuth : sizesAndRates noAuth = sizesAndRates noAuth')
    (hauth : sizesAndRates auth = sizesAndRates auth') :
    refusal (roundTripTable labels noAuth auth) =
      refusal (roundTripTable labels noAuth' auth') := by
  rw [roundTripTable, roundTripTable]
  refine refusal_bind ?_ fun _ _ _ _ => refusal_pure_eq_refusal_pure ..
  rw [blocks, blocks, map_rate_eq, map_rate_eq, map_dbSize_eq, map_dbSize_eq, hauth]
  exact refusal_mapM fun dbSize _ => refusal_blockAt hnoAuth hauth _ dbSize

end Latex

end BenchTables
