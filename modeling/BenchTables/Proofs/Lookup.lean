import Mathlib.Data.List.Nodup

/-!
# Looking up in a list of pairs

A look-up finds the first pair with a key, so it does not see pairs with other keys.
-/

namespace BenchTables

variable {α β : Type} [BEq α] [LawfulBEq α] {k c : α} {v : β} {done : List (α × β)}

theorem lookup_cons_of_ne (h : k ≠ c) : ((c, v) :: done).lookup k = done.lookup k := by
  rw [List.lookup_cons, beq_eq_false_iff_ne.mpr h]

theorem lookup_append_single_of_ne (h : k ≠ c) : (done ++ [(c, v)]).lookup k = done.lookup k := by
  rw [List.lookup_append, lookup_cons_of_ne h, List.lookup_nil, Option.or_none]

theorem lookup_eq_none_of_not_mem (h : c ∉ done.map Prod.fst) : done.lookup c = none := by
  rw [List.lookup_eq_none_iff]
  intro p hp
  rw [bne_iff_ne]
  rintro rfl
  exact h (List.mem_map_of_mem hp)

theorem lookup_append_single_self (h : c ∉ done.map Prod.fst) :
    (done ++ [(c, v)]).lookup c = some v := by
  rw [List.lookup_append, lookup_eq_none_of_not_mem h, List.lookup_cons_self, Option.none_or]

/-- Under keys that are not repeated, what is looked up is what is there. -/
theorem lookup_eq_some_iff_of_nodup (h : (done.map Prod.fst).Nodup) :
    done.lookup k = some v ↔ (k, v) ∈ done := by
  constructor
  · intro hlookup
    obtain ⟨before, after, rfl, -⟩ := List.lookup_eq_some_iff.mp hlookup
    simp
  · intro hmem
    obtain ⟨before, after, rfl⟩ := List.append_of_mem hmem
    rw [List.map_append, List.map_cons, List.nodup_append] at h
    have hnew : k ∉ before.map Prod.fst := fun hk => h.2.2 k hk k List.mem_cons_self rfl
    rw [List.lookup_append, lookup_eq_none_of_not_mem hnew, List.lookup_cons_self, Option.none_or]

theorem lookup_filter_fst (keep : α → Bool) (l : List (α × β)) (k : α) :
    (l.filter fun entry => keep entry.1).lookup k = if keep k then l.lookup k else none := by
  induction l with
  | nil => simp
  | cons entry rest ih =>
    obtain ⟨key, value⟩ := entry
    rw [List.filter_cons]
    by_cases hk : k = key
    · subst hk
      split
      next hkeep => rw [List.lookup_cons_self, List.lookup_cons_self]
      next hkeep => rw [ih, if_neg hkeep]
    · rw [lookup_cons_of_ne hk]
      split
      · rw [lookup_cons_of_ne hk, ih]
      · exact ih

theorem lookup_zip_getElem {keys : List α} (hnodup : keys.Nodup) (values : List β) {i : ℕ}
    (hk : i < keys.length) (hv : i < values.length) :
    (keys.zip values).lookup keys[i] = some values[i] := by
  induction keys generalizing values i with
  | nil => cases hk
  | cons key rest ih =>
    obtain ⟨hfirst, hrest⟩ := List.nodup_cons.mp hnodup
    cases values with
    | nil => cases hv
    | cons value others =>
      cases i with
      | zero => simp
      | succ i =>
        have hk' : i < rest.length := Nat.lt_of_succ_lt_succ hk
        have hv' : i < others.length := Nat.lt_of_succ_lt_succ hv
        have hne : rest[i] ≠ key := fun h => hfirst (h ▸ List.getElem_mem hk')
        rw [List.zip_cons_cons, List.getElem_cons_succ, List.getElem_cons_succ,
          lookup_cons_of_ne hne]
        exact ih hrest others hk' hv'

end BenchTables
