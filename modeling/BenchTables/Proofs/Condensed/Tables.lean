import BenchTables.Proofs.Experiment.Selection
import BenchTables.Proofs.Outcome

/-!
# Condensed tables and the experiments in them

Rows are selected before they are grouped, and each table sorts its own groups.  All the same, the
tables are the experiments of all rows, each in the tables of its variant and its kind of client
(`TableSet.Holds`): `holds_of_condense`.
-/

namespace BenchTables

/-- The experiments of a variant with a single client or with multiple clients. -/
def experimentsOf (variant : Variant) (multiClient : Bool) (rows : List Measurement) :
    List Experiment :=
  (experiments rows).filter fun e => e.variant = variant ∧ e.multiClient = multiClient

/-- The tables hold the experiments of the rows: in some order, those of single clients in the
bandwidth table of their variant and, at rate one, in its single-client table, and those of
multiple clients in its multi-client table. -/
structure TableSet.Holds (tables : TableSet) (rows : List Measurement) : Prop where
  bandwidth : ∀ v, (tables.of v).bandwidth.Perm ((experimentsOf v false rows).map fun e =>
    ⟨e.id, Decimal.nearestUInt64 e.dbSize, Decimal.nearestUInt64 e.rate,
      #v[e.bandwidthTotal, e.bandwidthTotal / e.rate]⟩)
  multiClient : ∀ v, (tables.of v).multiClient.Perm ((experimentsOf v true rows).map fun e =>
    ⟨e.id, Decimal.nearestUInt64 e.dbSize, Decimal.nearestUInt64 e.rate,
      e.latency.push e.latencyTotal⟩)
  singleClient : ∀ v, (tables.of v).singleClient.Perm
    (((experimentsOf v false rows).filter fun e =>
      ∃ m ∈ rows, m.experimentId = e.id ∧ m.rate = 1).map fun e =>
        ⟨e.id, Decimal.nearestUInt64 e.dbSize, Decimal.nearestUInt64 e.rate,
          e.latency.push e.latencyTotal⟩)

/-! ## The tables of a variant -/

theorem variantTables_outcome (rows : List Measurement) (variant : Variant) :
    (Condense.variantTables rows variant).outcome =
      (bandwidthRows (select variant false rows)).map fun bandwidth =>
        ⟨bandwidth, latencyRows (select variant true rows),
          latencyRows ((select variant false rows).filter fun m => m.rate = 1)⟩ := by
  simp only [Condense.variantTables, Traced.outcome_bind, Traced.note, Traced.outcome_report,
    Traced.outcome_silent, Traced.outcome_pure, ok_bind]
  cases bandwidthRows (select variant false rows) <;> rfl

theorem variantTables_eq_ok {rows : List Measurement} {variant : Variant} {tables : VariantTables}
    (h : (Condense.variantTables rows variant).outcome = .ok tables) :
    bandwidthRows (select variant false rows) = .ok tables.bandwidth ∧
      tables.multiClient = latencyRows (select variant true rows) ∧
      tables.singleClient =
        latencyRows ((select variant false rows).filter fun m => m.rate = 1) := by
  rw [variantTables_outcome] at h
  cases hbandwidth : bandwidthRows (select variant false rows) with
  | error e => rw [hbandwidth] at h; cases h
  | ok bandwidth =>
    rw [hbandwidth] at h
    cases h
    exact ⟨rfl, rfl, rfl⟩

theorem condense_eq_ok {rows : List Measurement} {tables : TableSet}
    (h : (condense rows).outcome = .ok tables) (v : Variant) :
    bandwidthRows (select v false rows) = .ok (tables.of v).bandwidth ∧
      (tables.of v).multiClient = latencyRows (select v true rows) ∧
      (tables.of v).singleClient =
        latencyRows ((select v false rows).filter fun m => m.rate = 1) := by
  rw [condense, Traced.outcome_bind] at h
  obtain ⟨noAuth, hnoAuth, h⟩ := bind_eq_ok_iff.mp h
  rw [Traced.outcome_bind] at h
  obtain ⟨auth, hauth, h⟩ := bind_eq_ok_iff.mp h
  cases h
  cases v
  · exact variantTables_eq_ok hnoAuth
  · exact variantTables_eq_ok hauth

/-! ## The rows of a table -/

theorem bandwidthRow_eq_ok {e : Experiment} {row : BandwidthRow} (h : e.bandwidthRow = .ok row) :
    row = ⟨e.id, Decimal.nearestUInt64 e.dbSize, Decimal.nearestUInt64 e.rate,
      #v[e.bandwidthTotal, e.bandwidthTotal / e.rate]⟩ := by
  rw [Experiment.bandwidthRow] at h
  split at h
  · cases h
  · cases h
    rfl

theorem bandwidthRows_perm {rows : List Measurement} {table : List BandwidthRow}
    (h : bandwidthRows rows = .ok table) :
    table.Perm ((experiments rows).map fun e =>
      ⟨e.id, Decimal.nearestUInt64 e.dbSize, Decimal.nearestUInt64 e.rate,
        #v[e.bandwidthTotal, e.bandwidthTotal / e.rate]⟩) := by
  rw [eq_map_of_mapM_eq_ok (fun _ _ => bandwidthRow_eq_ok) h]
  exact (List.mergeSort_perm _ _).map _

/-- A bandwidth row is that of an experiment whose mean rate is not zero. -/
theorem exists_experiment_of_mem_bandwidth {rows : List Measurement} {tables : TableSet}
    (h : (condense rows).outcome = .ok tables) {v : Variant} {row : BandwidthRow}
    (hrow : row ∈ (tables.of v).bandwidth) :
    ∃ e ∈ experiments rows, (e.rate == 0.0) = false ∧ row = ⟨e.id, Decimal.nearestUInt64 e.dbSize,
      Decimal.nearestUInt64 e.rate, #v[e.bandwidthTotal, e.bandwidthTotal / e.rate]⟩ := by
  obtain ⟨e, he, hbandwidth⟩ := exists_of_mem_of_mapM_eq_ok (condense_eq_ok h v).1 hrow
  have hmem : e ∈ experiments (select v false rows) := List.mem_mergeSort.mp he
  rw [experiments_select] at hmem
  refine ⟨e, (List.mem_filter.mp hmem).1, ?_, bandwidthRow_eq_ok hbandwidth⟩
  unfold Experiment.bandwidthRow at hbandwidth
  split at hbandwidth
  next => cases hbandwidth
  next hrate => exact Bool.eq_false_iff.mpr hrate

theorem latencyRows_perm (rows : List Measurement) :
    (latencyRows rows).Perm ((experiments rows).map Experiment.latencyRow) :=
  (List.mergeSort_perm _ _).map _

/-- Experiments that ascend already are not moved. -/
theorem latencyRows_of_pairwise {rows : List Measurement}
    (h : (experiments rows).Pairwise fun a b => a.sizeLE b = true) :
    latencyRows rows = (experiments rows).map Experiment.latencyRow := by
  rw [latencyRows, List.mergeSort_of_pairwise h]

theorem holds_of_condense {rows : List Measurement} {tables : TableSet}
    (h : (condense rows).outcome = .ok tables) : tables.Holds rows where
  bandwidth v := by
    have hperm := bandwidthRows_perm (condense_eq_ok h v).1
    rwa [experiments_select] at hperm
  multiClient v := by
    have hperm := latencyRows_perm (select v true rows)
    rw [experiments_select] at hperm
    rw [(condense_eq_ok h v).2.1]
    exact hperm
  singleClient v := by
    -- The rate is filtered among rows, but the identifier tells it, so it selects experiments.
    have hperm := latencyRows_perm ((select v false rows).filter fun m => m.rate = 1)
    rw [experiments_select_rate] at hperm
    rw [(condense_eq_ok h v).2.2, experimentsOf, List.filter_filter]
    refine hperm.trans (List.Perm.of_eq (congrArg _ (List.filter_congr fun e _ => ?_)))
    rw [Bool.eq_iff_iff, Bool.and_eq_true]
    simp only [decide_eq_true_eq]
    exact And.comm

theorem sum_repetitions_experimentsOf (rows : List Measurement) :
    (Variant.all.map fun v =>
      ((experimentsOf v false rows).map Experiment.repetitions).sum +
        ((experimentsOf v true rows).map Experiment.repetitions).sum).sum = rows.length := by
  rw [← sum_length_select rows]
  refine congrArg List.sum (List.map_congr_left fun v _ => ?_)
  rw [experimentsOf, experimentsOf, ← experiments_select, ← experiments_select,
    sum_repetitions_experiments, sum_repetitions_experiments]

end BenchTables
