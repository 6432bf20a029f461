import BenchTables.Proofs.Condensed.Order
import BenchTables.Proofs.Condensed.Tables
import BenchTables.Proofs.Experiment.Rate

/-!
# Refusals for rate zero

A bandwidth table is refused for the first of its experiments whose mean rate is zero.  As long as
a word can count the rows, these are the experiments of the rows of rate zero
(`mem_zeroRateExperiments_iff`), and they have one mean rate, so that among them the size and the
identifier decide (`bandwidthRows_eq_error_iff`).  Condensing asks for the bandwidth of single
clients only, first without and then with malicious security (`condense_eq_error_iff`).
-/

namespace BenchTables

variable {rows : List Measurement} {e : Experiment} {error : CondenseError} {id : String}

/-- The experiments of the rows of rate zero. -/
def zeroRateExperiments (rows : List Measurement) : List Experiment :=
  experiments (rows.filter fun m => m.rate = 0)

/-- An experiment has the smallest mean size of experiments and, among those of that size, the
smallest identifier. -/
structure Experiment.IsFirstOf (e : Experiment) (es : List Experiment) : Prop where
  mem : e ∈ es
  sizeLE : ∀ other ∈ es, e.sizeLE other
  id_le : ∀ other ∈ es, other.sizeLE e → e.id ≤ other.id

theorem Experiment.isFirstOf_iff {es : List Experiment} :
    e.IsFirstOf es ↔
      e ∈ es ∧ (∀ other ∈ es, e.sizeLE other) ∧ ∀ other ∈ es, other.sizeLE e → e.id ≤ other.id :=
  ⟨fun h => ⟨h.mem, h.sizeLE, h.id_le⟩, fun ⟨hmem, hsize, hid⟩ => ⟨hmem, hsize, hid⟩⟩

instance (e : Experiment) (es : List Experiment) : Decidable (e.IsFirstOf es) :=
  decidable_of_iff _ Experiment.isFirstOf_iff.symm

theorem Experiment.IsFirstOf.id_eq {a b : Experiment} {es : List Experiment} (ha : a.IsFirstOf es)
    (hb : b.IsFirstOf es) : a.id = b.id :=
  le_antisymm (ha.id_le b hb.mem (hb.sizeLE a ha.mem)) (hb.id_le a ha.mem (ha.sizeLE b hb.mem))

/-! ## Experiments of rate zero -/

theorem exists_zeroRateExperiment_iff :
    (∃ e, e ∈ zeroRateExperiments rows) ↔ ∃ m ∈ rows, m.rate = 0 := by
  constructor
  · rintro ⟨e, he⟩
    obtain ⟨m, hm, -⟩ := exists_row_of_mem_experiments he
    exact ⟨m, by simpa using hm⟩
  · rintro ⟨m, hm, hrate⟩
    have hmem : m ∈ rows.filter fun m => m.rate = 0 :=
      List.mem_filter.mpr ⟨hm, decide_eq_true hrate⟩
    obtain ⟨e, he, -⟩ := exists_experiment_iff.mpr ⟨m, hmem, rfl⟩
    exact ⟨e, he⟩

theorem rate_of_mem_zeroRateExperiments (he : e ∈ zeroRateExperiments rows) : e.rate = 0.0 := by
  apply (isMeanOf_of_mem_experiments he).rate_eq_zero
  intro m hm
  exact of_decide_eq_true (List.mem_filter.mp (mem_ownRows_iff.mp hm).1).2

theorem mem_zeroRateExperiments_iff (hlength : rows.length < 2 ^ 64) :
    e ∈ zeroRateExperiments rows ↔ e ∈ experiments rows ∧ (e.rate == 0.0) = true := by
  rw [zeroRateExperiments, experiments_filter (respects_rate 0), List.mem_filter, List.any_eq_true]
  refine and_congr_right fun he => ?_
  rw [rate_beq_zero_iff he hlength]
  simp only [mem_ownRows_iff, decide_eq_true_eq, and_assoc]

/-! ## Bandwidth tables -/

theorem bandwidthRow_eq_error_iff :
    e.bandwidthRow = .error error ↔ (e.rate == 0.0) = true ∧ error = .zeroRate e.id := by
  unfold Experiment.bandwidthRow
  split
  next h => simp [h, eq_comm]
  next h => simp [h]

/-- What a table is refused for comes before all other experiments of rate zero. -/
theorem isFirstOf_of_bandwidthRows (hlength : rows.length < 2 ^ 64)
    (h : bandwidthRows rows = .error error) :
    ∃ e : Experiment, e.IsFirstOf (zeroRateExperiments rows) ∧ error = .zeroRate e.id := by
  obtain ⟨e, he, hfails, hbefore⟩ :=
    exists_first_of_mapM_eq_error (pairwise_bandwidth_order rows) h
  obtain ⟨hrate, herror⟩ := bandwidthRow_eq_error_iff.mp hfails
  have hzero : e ∈ zeroRateExperiments rows :=
    (mem_zeroRateExperiments_iff hlength).mpr ⟨List.mem_mergeSort.mp he, hrate⟩
  have hfirst : ∀ other ∈ zeroRateExperiments rows,
      e.sizeLE other ∧ (other.sizeLE e → e.id ≤ other.id) := by
    intro other hother
    obtain ⟨hmem, hotherRate⟩ := (mem_zeroRateExperiments_iff hlength).mp hother
    have hrefused : ∀ row, other.bandwidthRow ≠ .ok row := by
      rw [bandwidthRow_eq_error_iff.mpr ⟨hotherRate, rfl⟩]
      exact fun row => nofun
    rcases hbefore other (List.mem_mergeSort.mpr hmem) hrefused with rfl | ⟨hle, hties⟩
    · exact ⟨Experiment.sizeLE_iff.mpr le_rfl, fun _ => le_rfl⟩
    · -- Both have the mean rate zero, so the order of the table is that of sizes.
      have hsame : e.rate = other.rate := by
        rw [rate_of_mem_zeroRateExperiments hzero, rate_of_mem_zeroRateExperiments hother]
      rw [Experiment.sizeRateLE_iff_of_rate_eq hsame] at hle
      rw [Experiment.sizeRateLE_iff_of_rate_eq hsame.symm] at hties
      exact ⟨hle, fun hback => (hties hback).le⟩
  exact ⟨e, ⟨hzero, fun other h => (hfirst other h).1, fun other h => (hfirst other h).2⟩, herror⟩

theorem exists_bandwidthRows_error_iff (hlength : rows.length < 2 ^ 64) :
    (∃ error, bandwidthRows rows = .error error) ↔ ∃ m ∈ rows, m.rate = 0 := by
  rw [← exists_zeroRateExperiment_iff]
  constructor
  · rintro ⟨error, h⟩
    obtain ⟨e, hfirst, -⟩ := isFirstOf_of_bandwidthRows hlength h
    exact ⟨e, hfirst.mem⟩
  · rintro ⟨e, he⟩
    obtain ⟨hexperiment, hrate⟩ := (mem_zeroRateExperiments_iff hlength).mp he
    cases h : bandwidthRows rows with
    | error error => exact ⟨error, rfl⟩
    | ok table =>
      -- A table has a row of each experiment, which this one does not come to.
      obtain ⟨row, hrow⟩ := exists_eq_ok_of_mapM_eq_ok h (List.mem_mergeSort.mpr hexperiment)
      rw [bandwidthRow_eq_error_iff.mpr ⟨hrate, rfl⟩] at hrow
      cases hrow

theorem bandwidthRows_eq_error_iff (hlength : rows.length < 2 ^ 64) :
    bandwidthRows rows = .error (.zeroRate id) ↔
      ∃ e : Experiment, e.IsFirstOf (zeroRateExperiments rows) ∧ e.id = id := by
  constructor
  · intro h
    obtain ⟨e, hfirst, herror⟩ := isFirstOf_of_bandwidthRows hlength h
    exact ⟨e, hfirst, (CondenseError.zeroRate.inj herror).symm⟩
  · rintro ⟨e, hfirst, rfl⟩
    obtain ⟨error, h⟩ := (exists_bandwidthRows_error_iff hlength).mpr
      (exists_zeroRateExperiment_iff.mp ⟨e, hfirst.mem⟩)
    obtain ⟨other, hother, rfl⟩ := isFirstOf_of_bandwidthRows hlength h
    rw [h, hother.id_eq hfirst]

/-! ## Condensing -/

/-- Of two refusals that of the tables without malicious security is reported. -/
theorem condense_eq_error_iff :
    (condense rows).outcome = .error error ↔
      bandwidthRows (select .noAuth false rows) = .error error ∨
        (∃ table, bandwidthRows (select .noAuth false rows) = .ok table) ∧
          bandwidthRows (select .auth false rows) = .error error := by
  simp only [condense, Traced.outcome_bind, variantTables_outcome, Traced.outcome_pure]
  cases bandwidthRows (select .noAuth false rows) with
  | error e => simp [Except.map, bind, Except.bind]
  | ok table =>
    cases bandwidthRows (select .auth false rows) with
    | error e => simp [Except.map, bind, Except.bind]
    | ok table => simp [Except.map, bind, Except.bind]

theorem length_select_lt {v : Variant} {multiClient : Bool} (hlength : rows.length < 2 ^ 64) :
    (select v multiClient rows).length < 2 ^ 64 :=
  (List.length_filter_le _ _).trans_lt hlength

theorem exists_zeroRate_select_iff {v : Variant} :
    (∃ m ∈ select v false rows, m.rate = 0) ↔
      ∃ m ∈ rows, m.variant = v ∧ m.multiClient = false ∧ m.rate = 0 := by
  simp [select, and_assoc]

theorem exists_condense_error_iff (hlength : rows.length < 2 ^ 64) :
    (∃ error, (condense rows).outcome = .error error) ↔
      ∃ m ∈ rows, m.multiClient = false ∧ m.rate = 0 := by
  have hfails : ∀ v, (∃ error, bandwidthRows (select v false rows) = .error error) ↔
      ∃ m ∈ rows, m.variant = v ∧ m.multiClient = false ∧ m.rate = 0 := fun v =>
    (exists_bandwidthRows_error_iff (length_select_lt hlength)).trans exists_zeroRate_select_iff
  constructor
  · rintro ⟨error, h⟩
    rcases condense_eq_error_iff.mp h with h | ⟨-, h⟩
    · obtain ⟨m, hm, -, hrefused⟩ := (hfails .noAuth).mp ⟨error, h⟩
      exact ⟨m, hm, hrefused⟩
    · obtain ⟨m, hm, -, hrefused⟩ := (hfails .auth).mp ⟨error, h⟩
      exact ⟨m, hm, hrefused⟩
  · rintro ⟨m, hm, hrefused⟩
    cases hnoAuth : bandwidthRows (select .noAuth false rows) with
    | error error => exact ⟨error, condense_eq_error_iff.mpr (.inl hnoAuth)⟩
    | ok table =>
      -- The row is not one of the first variant, whose table can be made, and so of the other.
      cases hvariant : m.variant with
      | noAuth =>
        obtain ⟨error, h⟩ := (hfails .noAuth).mpr ⟨m, hm, hvariant, hrefused⟩
        rw [hnoAuth] at h
        cases h
      | auth =>
        obtain ⟨error, h⟩ := (hfails .auth).mpr ⟨m, hm, hvariant, hrefused⟩
        exact ⟨error, condense_eq_error_iff.mpr (.inr ⟨⟨table, hnoAuth⟩, h⟩)⟩

end BenchTables
