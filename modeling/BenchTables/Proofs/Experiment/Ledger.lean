import BenchTables.Experiment.Group
import BenchTables.Proofs.Lookup
import Mathlib.Data.List.Induction
import Mathlib.Data.String.Basic

/-!
# What a ledger holds

A ledger is entered row by row, but what it holds can be told by identifier: its identifiers
ascend, and under each stands the tally of the rows with that identifier, in their order.  Both
are kept by one entry (`Ascending.enter`, `lookup_enter`) and so hold after all of them
(`Ascending.enterAll`, `lookup_enterAll`).  A ledger is determined by that (`Ascending.ext`).
-/

namespace BenchTables

/-- The measurements with an identifier. -/
def ownRows (id : String) (rows : List Measurement) : List Measurement :=
  rows.filter fun m => m.experimentId = id

/-- The tally of measurements, if there are any. -/
def Tally.ofRows : List Measurement → Option Tally
  | [] => none
  | first :: rest => some ((first :: rest).foldl Tally.add (Tally.start first))

theorem Tally.ofRows_append_singleton (own : List Measurement) (m : Measurement) :
    Tally.ofRows (own ++ [m]) =
      some (((Tally.ofRows own).getD (Tally.start m)).add m) := by
  cases own with
  | nil => rfl
  | cons first rest =>
    rw [List.cons_append, Tally.ofRows, ← List.cons_append, List.foldl_append]
    rfl

theorem Tally.ofRows_eq_none_iff {own : List Measurement} :
    Tally.ofRows own = none ↔ own = [] := by
  cases own with
  | nil => simp [Tally.ofRows]
  | cons first rest => simp [Tally.ofRows]

namespace Ledger

/-- The identifiers of a ledger ascend. -/
def Ascending (l : Ledger) : Prop := l.Pairwise fun a b => a.1 < b.1

variable {l l' : Ledger} {id key : String} {m : Measurement} {t : Tally}

/-! ## One entry -/

theorem mem_keys_enter (h : key ∈ (l.enter id m).map Prod.fst) :
    key = id ∨ key ∈ l.map Prod.fst := by
  induction l with
  | nil =>
    rw [enter] at h
    exact Or.inl (List.mem_singleton.mp h)
  | cons entry rest ih =>
    obtain ⟨first, tally⟩ := entry
    rw [enter] at h
    split at h
    · rcases List.mem_cons.mp h with h | h
      · exact Or.inl h
      · exact Or.inr h
    split at h
    · exact Or.inr h
    · rcases List.mem_cons.mp h with h | h
      · exact Or.inr (h ▸ List.mem_cons_self)
      · exact (ih h).imp_right (List.mem_cons_of_mem _)

theorem ascending_cons_iff {entry : String × Tally} :
    Ascending (entry :: l) ↔ (∀ k ∈ l.map Prod.fst, entry.1 < k) ∧ Ascending l := by
  rw [Ascending, List.pairwise_cons, List.forall_mem_map]
  rfl

theorem Ascending.enter (h : Ascending l) : Ascending (l.enter id m) := by
  induction l with
  | nil => exact List.pairwise_singleton _ _
  | cons entry rest ih =>
    obtain ⟨first, tally⟩ := entry
    obtain ⟨hfirst, hrest⟩ := ascending_cons_iff.mp h
    rw [Ledger.enter]
    split
    next hlt =>
      -- A new identifier below all others.
      refine ascending_cons_iff.mpr ⟨fun k hk => ?_, h⟩
      rcases List.mem_cons.mp hk with rfl | hk
      · exact hlt
      · exact hlt.trans (hfirst k hk)
    next hlt =>
      split
      · exact ascending_cons_iff.mpr ⟨hfirst, hrest⟩
      next hne =>
        refine ascending_cons_iff.mpr ⟨fun k hk => ?_, ih hrest⟩
        rcases mem_keys_enter hk with rfl | hk
        · exact lt_of_le_of_ne (not_lt.mp hlt) (Ne.symm hne)
        · exact hfirst k hk

/-- Under the identifier of an entry stands the tally with one more row, under others what stood
there before. -/
theorem lookup_enter (h : Ascending l) (key : String) :
    (l.enter id m).lookup key =
      if key = id then some (((l.lookup id).getD (Tally.start m)).add m) else l.lookup key := by
  induction l with
  | nil =>
    by_cases hk : key = id
    · rw [hk, enter, List.lookup_cons_self, if_pos rfl]
      rfl
    · rw [enter, lookup_cons_of_ne hk, if_neg hk]
  | cons entry rest ih =>
    obtain ⟨first, tally⟩ := entry
    obtain ⟨hfirst, hrest⟩ := ascending_cons_iff.mp h
    rw [enter]
    split
    next hlt =>
      -- The identifier is smaller than all others, so it had no tally.
      have hnone : List.lookup id ((first, tally) :: rest) = none := by
        apply lookup_eq_none_of_not_mem
        intro hmem
        rcases List.mem_cons.mp hmem with rfl | hmem
        · exact lt_irrefl _ hlt
        · exact lt_asymm hlt (hfirst id hmem)
      rw [hnone]
      by_cases hk : key = id
      · rw [hk, List.lookup_cons_self, if_pos rfl]
        rfl
      · rw [lookup_cons_of_ne hk, if_neg hk]
    next hlt =>
      split
      next heq =>
        subst heq
        by_cases hk : key = id
        · rw [hk, List.lookup_cons_self, List.lookup_cons_self, if_pos rfl]
          rfl
        · rw [lookup_cons_of_ne hk, lookup_cons_of_ne hk, if_neg hk]
      next hne =>
        rw [lookup_cons_of_ne hne]
        by_cases hk : key = first
        · rw [hk, List.lookup_cons_self, List.lookup_cons_self, if_neg fun h => hne h.symm]
        · rw [lookup_cons_of_ne hk, lookup_cons_of_ne hk, ih hrest]

/-! ## All entries -/

theorem enterAll_append_singleton (l : Ledger) (rows : List Measurement) (m : Measurement) :
    l.enterAll (rows ++ [m]) = (l.enterAll rows).enter m.experimentId m := by
  rw [enterAll, List.foldl_append]
  rfl

theorem Ascending.enterAll (h : Ascending l) (rows : List Measurement) :
    Ascending (l.enterAll rows) := by
  induction rows generalizing l with
  | nil => exact h
  | cons m rest ih => exact ih h.enter

theorem ascending_enterAll_nil (rows : List Measurement) : Ascending (enterAll [] rows) := by
  have hnil : Ascending [] := List.Pairwise.nil
  exact hnil.enterAll rows

theorem lookup_enterAll (rows : List Measurement) (id : String) :
    (enterAll [] rows).lookup id = Tally.ofRows (ownRows id rows) := by
  -- Rows are taken off at the end, where the tally of an identifier grows.
  induction rows using List.reverseRecOn with
  | nil => rfl
  | append_singleton rows m ih =>
    rw [enterAll_append_singleton, lookup_enter (ascending_enterAll_nil rows), ownRows,
      List.filter_append]
    by_cases hid : id = m.experimentId
    · subst hid
      rw [if_pos rfl, ih, List.filter_cons, if_pos (by simp), List.filter_nil,
        Tally.ofRows_append_singleton]
      rfl
    · rw [if_neg hid, ih, List.filter_cons, if_neg (by simpa using Ne.symm hid), List.filter_nil,
        List.append_nil]
      rfl

/-! ## A ledger and its look-ups -/

theorem lookup_of_mem (h : Ascending l) (hmem : (id, t) ∈ l) : l.lookup id = some t := by
  induction l with
  | nil => cases hmem
  | cons entry rest ih =>
    obtain ⟨hfirst, hrest⟩ := ascending_cons_iff.mp h
    rcases List.mem_cons.mp hmem with rfl | hmem
    · exact List.lookup_cons_self
    · have hkey : id ∈ rest.map Prod.fst := List.mem_map_of_mem (f := Prod.fst) hmem
      rw [lookup_cons_of_ne (hfirst id hkey).ne']
      exact ih hrest hmem

theorem mem_of_lookup (h : l.lookup id = some t) : (id, t) ∈ l := by
  obtain ⟨before, after, rfl, -⟩ := List.lookup_eq_some_iff.mp h
  exact List.mem_append_right _ List.mem_cons_self

theorem mem_iff_lookup (h : Ascending l) : (id, t) ∈ l ↔ l.lookup id = some t :=
  ⟨lookup_of_mem h, mem_of_lookup⟩

/-- Two ledgers with ascending identifiers and the same look-ups are the same. -/
theorem Ascending.ext (h : Ascending l) (h' : Ascending l')
    (hlookup : ∀ id, l.lookup id = l'.lookup id) : l = l' := by
  have hle : l.Pairwise fun a b => a.1 ≤ b.1 := h.imp le_of_lt
  have hle' : l'.Pairwise fun a b => a.1 ≤ b.1 := h'.imp le_of_lt
  refine List.Perm.eq_of_pairwise ?_ hle hle' ?_
  · -- Sorted lists with the same entries are the same, for no two entries share an identifier.
    rintro ⟨a, t⟩ ⟨b, u⟩ ha hb hab hba
    obtain rfl : a = b := le_antisymm hab hba
    have := (lookup_of_mem h ha).symm.trans ((hlookup a).trans (lookup_of_mem h' hb))
    rw [Option.some.inj this]
  · refine (List.perm_ext_iff_of_nodup (h.imp ?_) (h'.imp ?_)).mpr ?_
    · rintro a b hab rfl
      exact lt_irrefl _ hab
    · rintro a b hab rfl
      exact lt_irrefl _ hab
    · rintro ⟨id, t⟩
      rw [mem_iff_lookup h, mem_iff_lookup h', hlookup]

end Ledger

end BenchTables
