import BenchTables.Proofs.Experiment.Selection
import Mathlib.Data.List.Perm.Basic

/-!
# Rows in another order

Two lists of rows have the same repetitions when each identifier has the same rows in the same order
in both (`SameRepetitions`); how the rows of different identifiers alternate is left open.  Such
lists are permutations of each other, and whether two lists are such can be decided
(`sameRepetitions_iff`).
-/

namespace BenchTables

/-- Each identifier has the same rows in the same order in both lists. -/
def SameRepetitions (rows rows' : List Measurement) : Prop :=
  ∀ id, ownRows id rows = ownRows id rows'

variable {rows rows' rest : List Measurement} {m : Measurement}

namespace SameRepetitions

theorem count_eq (h : SameRepetitions rows rows') (m : Measurement) :
    rows.count m = rows'.count m := by
  have hown : ∀ l : List Measurement, (ownRows m.experimentId l).count m = l.count m :=
    fun l => List.count_filter (by simp)
  rw [← hown, h m.experimentId, hown]

theorem perm (h : SameRepetitions rows rows') : rows.Perm rows' :=
  List.perm_iff_count.mpr h.count_eq

theorem filter (h : SameRepetitions rows rows') (keep : Measurement → Bool) :
    SameRepetitions (rows.filter keep) (rows'.filter keep) := by
  intro id
  rw [ownRows_filter_comm, ownRows_filter_comm, h id]

/-- The first row of one list stands in the other before all others with its identifier. -/
theorem exists_split (h : SameRepetitions (m :: rest) rows') :
    ∃ before after, rows' = before ++ m :: after ∧
      (∀ x ∈ before, x.experimentId ≠ m.experimentId) ∧ SameRepetitions rest (before ++ after) := by
  have hown : ownRows m.experimentId rows' = m :: ownRows m.experimentId rest := by
    rw [← h m.experimentId, ownRows, List.filter_cons_of_pos (by simp)]
    rfl
  obtain ⟨before, after, rfl, hbefore, -, -⟩ := List.filter_eq_cons_iff.mp hown
  have hne : ∀ x ∈ before, x.experimentId ≠ m.experimentId :=
    fun x hx hid => hbefore x hx (by simpa using hid)
  refine ⟨before, after, rfl, hne, fun id => ?_⟩
  have hid := h id
  unfold ownRows at hid ⊢
  rw [List.filter_append] at hid ⊢
  by_cases hm : m.experimentId = id
  · -- No row before it has its identifier, so both lists lose their first one.
    have hnil : before.filter (fun x => x.experimentId = id) = [] :=
      List.filter_eq_nil_iff.mpr fun x hx hxid => hne x hx (hm ▸ of_decide_eq_true hxid)
    rw [hnil, List.filter_cons_of_pos (by simpa using hm),
      List.filter_cons_of_pos (by simpa using hm)] at hid
    rw [hnil]
    exact (List.cons.inj hid).2
  · rwa [List.filter_cons_of_neg (by simpa using hm),
      List.filter_cons_of_neg (by simpa using hm)] at hid

end SameRepetitions

/-- It is enough to look at the identifiers of one of two lists with the same rows. -/
theorem sameRepetitions_iff :
    SameRepetitions rows rows' ↔
      rows.Perm rows' ∧ ∀ m ∈ rows, ownRows m.experimentId rows = ownRows m.experimentId rows' := by
  refine ⟨fun h => ⟨h.perm, fun m _ => h m.experimentId⟩, fun ⟨hperm, hown⟩ id => ?_⟩
  by_cases hid : ∃ m ∈ rows, m.experimentId = id
  · obtain ⟨m, hm, rfl⟩ := hid
    exact hown m hm
  · -- An identifier of no row has none in the other list, either.
    have hnone : ownRows id rows = [] :=
      List.filter_eq_nil_iff.mpr fun m hm hmid => hid ⟨m, hm, of_decide_eq_true hmid⟩
    have hperm' : (ownRows id rows).Perm (ownRows id rows') := hperm.filter _
    rw [hnone] at hperm' ⊢
    exact hperm'.nil_eq

instance (rows rows' : List Measurement) : Decidable (SameRepetitions rows rows') :=
  decidable_of_iff _ sameRepetitions_iff.symm

end BenchTables
