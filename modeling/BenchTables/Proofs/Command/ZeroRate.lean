import BenchTables.Proofs.Command.Failure
import BenchTables.Proofs.Condensed.ZeroRate

/-!
# Runs that are refused for rate zero

A run that keeps any rate keeps rate zero, so that dropping rates neither makes nor hides a refusal
(`condense_keepRates_eq_error_iff`).  A run reports what condensing reports
(`aggregate_eq_condense_error_iff`), and so it is refused exactly for the measurement tables that
have a row of a single client at rate zero.  `zeroRate_refused` puts together when and for which
experiment a table, condensing and a run are refused.
-/

namespace BenchTables

open Files

variable {options : Aggregation} {input : String} {tree : FileTree} {rows : List Measurement}
  {error : CondenseError}

/-! ## Dropping rates -/

/-- The rows of rate zero are the same before and after rates are dropped. -/
theorem zeroRateExperiments_select_keepRates {repetitions : UInt32} (hrep : repetitions ≠ 0)
    (v : Variant) (multiClient : Bool) (rows : List Measurement) :
    zeroRateExperiments (select v multiClient (keepRates repetitions rows)) =
      zeroRateExperiments (select v multiClient rows) := by
  have hpos : (0 : UInt64) < repetitions.toUInt64 := by
    rw [UInt64.lt_iff_toNat_lt, UInt32.toNat_toUInt64]
    exact Nat.pos_of_ne_zero fun h => hrep (UInt32.toNat_inj.mp h)
  unfold zeroRateExperiments select keepRates
  rw [List.filter_filter, List.filter_filter, List.filter_filter]
  refine congrArg experiments (List.filter_congr fun m _ => ?_)
  by_cases hrate : m.rate = 0
  · simp [hrate, hpos]
  · simp [hrate]

theorem bandwidthRows_select_keepRates_eq_error_iff {repetitions : UInt32} (hrep : repetitions ≠ 0)
    (hlength : rows.length < 2 ^ 64) (v : Variant) (error : CondenseError) :
    bandwidthRows (select v false (keepRates repetitions rows)) = .error error ↔
      bandwidthRows (select v false rows) = .error error := by
  obtain ⟨id⟩ := error
  have hkept : (keepRates repetitions rows).length < 2 ^ 64 :=
    (List.length_filter_le _ _).trans_lt hlength
  rw [bandwidthRows_eq_error_iff (length_select_lt hkept),
    bandwidthRows_eq_error_iff (length_select_lt hlength),
    zeroRateExperiments_select_keepRates hrep]

theorem condense_keepRates_eq_error_iff {repetitions : UInt32} (hrep : repetitions ≠ 0)
    (hlength : rows.length < 2 ^ 64) :
    (condense (keepRates repetitions rows)).outcome = .error error ↔
      (condense rows).outcome = .error error := by
  simp only [condense_eq_error_iff, exists_eq_ok_iff, ne_eq,
    bandwidthRows_select_keepRates_eq_error_iff hrep hlength]

/-! ## Runs -/

theorem aggregate_eq_condense_error_iff (hrep : options.repetitions ≠ 0)
    (hrows : Session.measurementsAt tree input = .ok rows) (stem : String) :
    (aggregate options input stem tree).2.outcome = .error (.condense error) ↔
      (condense (keepRates options.repetitions rows)).outcome = .error error := by
  cases hcondense : (condense (keepRates options.repetitions rows)).outcome with
  | error refusal =>
    have hrefused : options.RefusesInput input tree (.condense refusal) :=
      .zeroRate hrep hrows hcondense
    rw [(hrefused.aggregate_eq stem).1, Except.error.injEq, Except.error.injEq,
      AggregateError.condense.injEq]
  | ok tables =>
    -- What can still go wrong are the files of the tables, which is another error.
    have hcondenses : options.Condenses input tree tables := ⟨hrep, rows, hrows, hcondense⟩
    rcases hcondenses.aggregate_cases stem with ⟨report, hreport, -⟩ | ⟨done, output, cause, hstop⟩
    · rw [hreport]
      exact ⟨nofun, nofun⟩
    · rw [hstop.aggregate_eq.1]
      exact ⟨nofun, nofun⟩

/-- A run that is refused for an experiment has read its table. -/
theorem exists_measurements_of_condense_error {stem : String}
    (h : (aggregate options input stem tree).2.outcome = .error (.condense error)) :
    ∃ rows, Session.measurementsAt tree input = .ok rows := by
  rcases refusesInput_or_condenses options input tree with ⟨refusal, hrefused⟩ | ⟨tables, htables⟩
  · rw [(hrefused.aggregate_eq stem).1] at h
    cases h
    cases hrefused with
    | zeroRate hrep hrows hcondense => exact ⟨_, hrows⟩
  · obtain ⟨-, rows, hrows, -⟩ := htables
    exact ⟨rows, hrows⟩

/-- Rate zero is refused exactly where bandwidth per request would be made of it.  A bandwidth table
is refused when a row has rate zero, and names the first experiment of such rows by mean size and
identifier.  Condensing is refused when a row of a single client has rate zero, and names what the
table without malicious security is refused for, if it is, and else what the other one is.  A run
that keeps any rate is refused for the same experiment, and otherwise for none.

The rows are taken to be no more than a word can count: far beyond that the mean of positive rates
comes to zero. -/
theorem zeroRate_refused (hlength : rows.length < 2 ^ 64) :
    ((∃ error, bandwidthRows rows = .error error) ↔ ∃ m ∈ rows, m.rate = 0) ∧
    (∀ id, bandwidthRows rows = .error (.zeroRate id) ↔
      ∃ e : Experiment, e.IsFirstOf (zeroRateExperiments rows) ∧ e.id = id) ∧
    ((∃ error, (condense rows).outcome = .error error) ↔
      ∃ m ∈ rows, m.multiClient = false ∧ m.rate = 0) ∧
    (∀ error, (condense rows).outcome = .error error ↔
      bandwidthRows (select .noAuth false rows) = .error error ∨
        (∃ table, bandwidthRows (select .noAuth false rows) = .ok table) ∧
          bandwidthRows (select .auth false rows) = .error error) ∧
    ∀ (options : Aggregation) (input stem : String) (tree : FileTree), options.repetitions ≠ 0 →
      (Session.measurementsAt tree input = .ok rows →
        ((∃ id, (aggregate options input stem tree).2.outcome =
            .error (.condense (.zeroRate id))) ↔
          ∃ m ∈ rows, m.multiClient = false ∧ m.rate = 0) ∧
        ∀ error, (aggregate options input stem tree).2.outcome = .error (.condense error) ↔
          (condense rows).outcome = .error error) ∧
      ∀ error, (aggregate options input stem tree).2.outcome = .error (.condense error) →
        ∃ found, Session.measurementsAt tree input = .ok found := by
  refine ⟨exists_bandwidthRows_error_iff hlength, fun id => bandwidthRows_eq_error_iff hlength,
    exists_condense_error_iff hlength, fun error => condense_eq_error_iff, ?_⟩
  intro options input stem tree hrep
  refine ⟨fun hrows => ?_, fun error h => exists_measurements_of_condense_error h⟩
  have hreport : ∀ error, (aggregate options input stem tree).2.outcome =
      .error (.condense error) ↔ (condense rows).outcome = .error error := fun error =>
    (aggregate_eq_condense_error_iff hrep hrows stem).trans
      (condense_keepRates_eq_error_iff hrep hlength)
  refine ⟨?_, hreport⟩
  rw [← exists_condense_error_iff hlength]
  constructor
  · rintro ⟨id, h⟩
    exact ⟨_, (hreport _).mp h⟩
  · rintro ⟨⟨id⟩, h⟩
    exact ⟨id, (hreport _).mpr h⟩

/-- Rows of rate zero: one of multiple clients, one with malicious security, and two of one size that
the lengths of their keys tell apart. -/
def zeroRateRows : List Measurement :=
  [{ sizedMeasurement 256 32 64 with rate := 0, multiClient := true },
    { sizedMeasurement 512 32 64 with rate := 0, malicious := true },
    { sizedMeasurement 1024 32 64 with rate := 0 }, { sizedMeasurement 1024 16 64 with rate := 0 }]

/-- A directory with the table of these rows. -/
def zeroRateTree : FileTree :=
  let configurations :=
    [["256", "32", "64", "False", "0", "True", "1"], ["512", "32", "64", "True", "0", "False", "1"],
      ["1024", "32", "64", "False", "0", "False", "1"],
      ["1024", "16", "64", "False", "0", "False", "1"]]
  let table := Csv.write Measurement.requiredColumns <|
    configurations.map (· ++ List.replicate 12 "512.5" ++ List.replicate 6 "2500")
  FileTree.fresh.put ["raw.csv"] (.file table.1)

set_option maxRecDepth 100000 in
theorem measurementsAt_zeroRateTree :
    Session.measurementsAt zeroRateTree "raw.csv" = .ok zeroRateRows := by
  decide +kernel

/-- Of all rows together the smallest experiment is named.  Condensing passes over the one of
multiple clients, and over the one with malicious security while there is another. -/
theorem zeroRate_refused_zeroRateRows :
    bandwidthRows zeroRateRows = .error (.zeroRate "2563264False0True1") ∧
    (condense zeroRateRows).outcome = .error (.zeroRate "10241664False0False1") ∧
    (aggregate { repetitions := 1 } "raw.csv" "means" zeroRateTree).2.outcome =
      .error (.condense (.zeroRate "10241664False0False1")) := by
  obtain ⟨-, hbandwidth, -, hcondense, hrun⟩ := @zeroRate_refused zeroRateRows (by decide)
  obtain ⟨-, hnoAuth, -⟩ :=
    @zeroRate_refused (select .noAuth false zeroRateRows) (by decide +kernel)
  have hall : ∃ e ∈ zeroRateExperiments zeroRateRows,
      e.IsFirstOf (zeroRateExperiments zeroRateRows) ∧ e.id = "2563264False0True1" := by
    decide +kernel
  have hsingle : ∃ e ∈ zeroRateExperiments (select .noAuth false zeroRateRows),
      e.IsFirstOf (zeroRateExperiments (select .noAuth false zeroRateRows)) ∧
        e.id = "10241664False0False1" := by
    decide +kernel
  obtain ⟨first, -, hfirst⟩ := hall
  obtain ⟨single, -, hrefused⟩ := hsingle
  have hreport := (hcondense _).mpr (Or.inl ((hnoAuth _).mpr ⟨single, hrefused⟩))
  obtain ⟨hread, -⟩ := hrun { repetitions := 1 } "raw.csv" "means" zeroRateTree (by decide)
  exact ⟨(hbandwidth _).mpr ⟨first, hfirst⟩, hreport,
    ((hread measurementsAt_zeroRateTree).2 _).mpr hreport⟩

end BenchTables
