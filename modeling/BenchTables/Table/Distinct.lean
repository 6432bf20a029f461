/-!
# Distinct values

The distinct values of a list in the order of their first appearance, and in ascending order.
-/

namespace BenchTables

/-- The distinct values of a list, in the order of their first appearance. -/
def firstAppearances {α : Type} [DecidableEq α] : List α → List α
  | [] => []
  | x :: rest => x :: (firstAppearances rest).filter (· ≠ x)

/-- The distinct words of a list, in ascending order. -/
def distinctAscending (words : List UInt64) : List UInt64 :=
  (firstAppearances words).mergeSort (· ≤ ·)

theorem mem_firstAppearances {α : Type} [DecidableEq α] {x : α} {l : List α} :
    x ∈ firstAppearances l ↔ x ∈ l := by
  induction l with
  | nil => simp [firstAppearances]
  | cons y rest ih =>
    by_cases h : x = y <;> simp [firstAppearances, ih, h]

theorem nodup_firstAppearances {α : Type} [DecidableEq α] (l : List α) :
    (firstAppearances l).Nodup := by
  induction l with
  | nil => simp [firstAppearances]
  | cons y rest ih =>
    simp only [firstAppearances, List.nodup_cons]
    exact ⟨by simp, ih.filter _⟩

theorem mem_distinctAscending {x : UInt64} {l : List UInt64} :
    x ∈ distinctAscending l ↔ x ∈ l := by
  simp [distinctAscending, mem_firstAppearances]

end BenchTables
