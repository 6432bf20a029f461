import BenchTables.Condensed.Tables
import BenchTables.Proofs.Experiment.Grouping

/-!
# Selecting rows and selecting experiments

A condition on rows that does not tell rows of one identifier apart selects whole experiments, so
that it does not matter whether rows are selected before they are grouped or experiments after it
(`experiments_filter`).  Variant, client mode and rate are such conditions, for they are told by
the identifier.
-/

namespace BenchTables

variable {rows : List Measurement} {e : Experiment} {m : Measurement}

/-- A condition that treats rows of one identifier alike. -/
def Respects (keep : Measurement → Bool) : Prop :=
  ∀ a b : Measurement, a.experimentId = b.experimentId → keep a = keep b

/-- Selecting among the rows of an identifier is taking its rows among the selected ones. -/
theorem ownRows_filter_comm (keep : Measurement → Bool) (id : String) (rows : List Measurement) :
    ownRows id (rows.filter keep) = (ownRows id rows).filter keep := by
  rw [ownRows, ownRows, List.filter_filter, List.filter_filter]
  exact List.filter_congr fun m _ => Bool.and_comm _ _

theorem ownRows_filter {keep : Measurement → Bool} (h : Respects keep) (id : String)
    (rows : List Measurement) :
    ownRows id (rows.filter keep) =
      if rows.any fun m => m.experimentId = id ∧ keep m then ownRows id rows else [] := by
  rw [ownRows_filter_comm]
  split
  next hany =>
    -- One row of the identifier is kept, and so are all others like it.
    obtain ⟨m, -, hm⟩ := List.any_eq_true.mp hany
    obtain ⟨hid, hkeep⟩ : m.experimentId = id ∧ keep m := by simpa using hm
    apply List.filter_eq_self.mpr
    intro a ha
    have haid : a.experimentId = id := by simpa using (List.mem_filter.mp ha).2
    rw [h a m (haid.trans hid.symm), hkeep]
  next hany =>
    refine List.filter_eq_nil_iff.mpr fun a ha hkeep => hany ?_
    obtain ⟨hmem, haid⟩ := List.mem_filter.mp ha
    exact List.any_eq_true.mpr ⟨a, hmem, by simpa [hkeep] using haid⟩

/-- The experiments of selected rows are those that have a selected row. -/
theorem experiments_filter {keep : Measurement → Bool} (h : Respects keep)
    (rows : List Measurement) :
    experiments (rows.filter keep) =
      (experiments rows).filter fun e => rows.any fun m => m.experimentId = e.id ∧ keep m := by
  have hledger : Ledger.enterAll [] (rows.filter keep) =
      (Ledger.enterAll [] rows).filter fun entry =>
        rows.any fun m => m.experimentId = entry.1 ∧ keep m := by
    -- Both ledgers ascend, so it is enough that they agree under every identifier.
    refine Ledger.Ascending.ext (Ledger.ascending_enterAll_nil _)
      ((Ledger.ascending_enterAll_nil _).filter _) fun id => ?_
    rw [lookup_filter_fst (fun key => rows.any fun m => m.experimentId = key ∧ keep m),
      Ledger.lookup_enterAll, Ledger.lookup_enterAll, ownRows_filter h]
    split <;> rfl
  rw [experiments, experiments, hledger, Ledger.experiments, Ledger.experiments, List.filter_map]
  rfl

/-! ## What the identifier tells of an experiment -/

theorem config_of_mem (he : e ∈ experiments rows) (hid : m.experimentId = e.id) :
    e.variant = m.variant ∧ e.multiClient = m.multiClient := by
  obtain ⟨first, hfirst, hvariant, hmulti, -⟩ := (isMeanOf_of_mem_experiments he).first
  have hown := List.mem_of_mem_head? hfirst
  have hfirstId : first.experimentId = e.id := by simpa using (List.mem_filter.mp hown).2
  obtain ⟨-, hmalicious, -, hclient, -⟩ :=
    (Measurement.experimentId_eq_iff first m).mp (hfirstId.trans hid.symm)
  refine ⟨hvariant.trans ?_, hmulti.trans hclient⟩
  rw [Measurement.variant, Measurement.variant, hmalicious]

theorem respects_select (variant : Variant) (multiClient : Bool) :
    Respects fun m => decide (m.variant = variant ∧ m.multiClient = multiClient) := by
  intro a b hid
  obtain ⟨-, hmalicious, -, hclient, -⟩ := (Measurement.experimentId_eq_iff a b).mp hid
  dsimp only
  rw [Measurement.variant, Measurement.variant, hmalicious, hclient]

theorem respects_rates (keep : UInt64 → Bool) : Respects fun m => keep m.rate := by
  intro a b hid
  obtain ⟨-, -, hrate, -⟩ := (Measurement.experimentId_eq_iff a b).mp hid
  exact congrArg keep hrate

theorem respects_rate (rate : UInt64) : Respects fun m => decide (m.rate = rate) :=
  respects_rates fun r => decide (r = rate)

theorem experiments_select (variant : Variant) (multiClient : Bool) (rows : List Measurement) :
    experiments (select variant multiClient rows) =
      (experiments rows).filter fun e => e.variant = variant ∧ e.multiClient = multiClient := by
  rw [select, experiments_filter (respects_select variant multiClient)]
  apply List.filter_congr
  intro e he
  rw [Bool.eq_iff_iff, List.any_eq_true]
  simp only [decide_eq_true_eq]
  constructor
  · rintro ⟨m, hm, hid, hvariant, hmulti⟩
    obtain ⟨hv, hc⟩ := config_of_mem he hid
    exact ⟨hv.trans hvariant, hc.trans hmulti⟩
  · rintro ⟨hvariant, hmulti⟩
    obtain ⟨m, hm, hid⟩ := exists_row_of_mem_experiments he
    obtain ⟨hv, hc⟩ := config_of_mem he hid
    exact ⟨m, hm, hid, hv.symm.trans hvariant, hc.symm.trans hmulti⟩

theorem experiments_select_rate (variant : Variant) (multiClient : Bool) (rate : UInt64)
    (rows : List Measurement) :
    experiments ((select variant multiClient rows).filter fun m => m.rate = rate) =
      (experiments rows).filter fun e =>
        (e.variant = variant ∧ e.multiClient = multiClient) ∧
          ∃ m ∈ rows, m.experimentId = e.id ∧ m.rate = rate := by
  rw [experiments_filter (respects_rate rate), experiments_select, List.filter_filter]
  apply List.filter_congr
  intro e he
  rw [Bool.eq_iff_iff, Bool.and_eq_true, List.any_eq_true]
  simp only [decide_eq_true_eq]
  constructor
  · rintro ⟨⟨m, hm, hid, hrate⟩, hconfig⟩
    exact ⟨hconfig, m, (List.mem_filter.mp hm).1, hid, hrate⟩
  · rintro ⟨⟨hvariant, hmulti⟩, m, hm, hid, hrate⟩
    obtain ⟨hv, hc⟩ := config_of_mem he hid
    refine ⟨⟨m, List.mem_filter.mpr ⟨hm, ?_⟩, hid, hrate⟩, hvariant, hmulti⟩
    simpa using ⟨hv.symm.trans hvariant, hc.symm.trans hmulti⟩

theorem length_select_cons (variant : Variant) (multiClient : Bool) (m : Measurement)
    (rows : List Measurement) :
    (select variant multiClient (m :: rows)).length = (select variant multiClient rows).length +
      if m.variant = variant ∧ m.multiClient = multiClient then 1 else 0 := by
  rw [select, select, List.filter_cons]
  split
  next h =>
    rw [if_pos (of_decide_eq_true h)]
    rfl
  next h => rw [if_neg fun hm => h (decide_eq_true hm), Nat.add_zero]

/-- The four selections divide the rows among them. -/
theorem sum_length_select (rows : List Measurement) :
    (Variant.all.map fun v =>
      (select v false rows).length + (select v true rows).length).sum = rows.length := by
  induction rows with
  | nil => rfl
  | cons m rest ih =>
    simp only [Variant.all, List.map_cons, List.map_nil, List.sum_cons, List.sum_nil,
      length_select_cons, List.length_cons] at ih ⊢
    rw [← ih]
    cases m.variant <;> cases m.multiClient <;> simp <;> omega

end BenchTables
