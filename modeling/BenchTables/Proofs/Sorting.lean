import Mathlib.Data.List.Basic
import Mathlib.Data.List.Pairwise

/-!
# Sorting keeps the order of ties

What compares as equal stays in the order in which it stood (`filter_ties_mergeSort`).  So sorting a
list that is in one order by another leaves it in the second order and, where that one ties, in the
first (`pairwise_mergeSort_ties`).
-/

namespace BenchTables

variable {α : Type} {le : α → α → Bool}

theorem filter_ties_mergeSort (htrans : ∀ a b c, le a b → le b c → le a c)
    (htotal : ∀ a b, le a b || le b a) (a : α) (l : List α) :
    (l.mergeSort le).filter (fun b => le a b && le b a) =
      l.filter fun b => le a b && le b a := by
  -- All ties are in order already, so that sorting keeps them a sublist.
  have hties : (l.filter fun b => le a b && le b a).Pairwise fun b c => le b c := by
    refine List.pairwise_of_forall_mem_list fun b hb c hc => ?_
    have hba := (Bool.and_eq_true_iff.mp (List.mem_filter.mp hb).2).2
    have hac := (Bool.and_eq_true_iff.mp (List.mem_filter.mp hc).2).1
    exact htrans b a c hba hac
  have hsub := (List.sublist_mergeSort htrans htotal hties List.filter_sublist).filter
    fun b => le a b && le b a
  rw [List.filter_filter] at hsub
  simp only [Bool.and_self] at hsub
  have hlength := ((List.mergeSort_perm l le).filter fun b => le a b && le b a).length_eq
  exact (hsub.eq_of_length hlength.symm).symm

theorem pairwise_mergeSort_ties (htrans : ∀ a b c, le a b → le b c → le a c)
    (htotal : ∀ a b, le a b || le b a) {r : α → α → Prop} {l : List α} (h : l.Pairwise r) :
    (l.mergeSort le).Pairwise fun a b => le a b ∧ (le b a → r a b) := by
  refine List.pairwise_of_forall_sublist fun {a b} hab => ?_
  have hle := (List.pairwise_mergeSort htrans htotal l).forall_sublist hab
  refine ⟨hle, fun hba => h.forall_sublist ?_⟩
  -- A tie stands in the sorted list as it stands in the list.
  have hself : le a a := by simpa using htotal a a
  have hpair : [a, b].filter (fun c => le a c && le c a) = [a, b] := by
    simp [hself, hle, hba]
  have hsorted := hab.filter fun c => le a c && le c a
  rw [hpair, filter_ties_mergeSort htrans htotal] at hsorted
  exact hsorted.trans List.filter_sublist

end BenchTables
