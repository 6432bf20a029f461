import BenchTables.Proofs.Command.Aggregate
import BenchTables.Proofs.Condensed.Tables
import BenchTables.Proofs.Condensed.ZeroRate
import BenchTables.Session

/-!
# Aggregating and inspecting agree

Condensing groups the rows of each selection on its own, inspecting groups all rows at once.  Yet
what condensing puts into its tables are the experiments that inspecting gives, none of them lost
and none twice.
-/

namespace BenchTables

open Files

theorem measurementsAt_of_read {tree : FileTree} {input : String} {bytes : List UInt8}
    {rows : List Measurement} (hbytes : tableBytes input (tree.read input) = .ok bytes)
    (hrows : Measurement.readTable input bytes = .ok rows) :
    Session.measurementsAt tree input = .ok rows := by
  rw [Session.measurementsAt, hbytes, ok_bind, hrows]

/-- The tables of any rows that can be condensed are the experiments of these rows, and so are the
tables of a run the experiments that inspecting the same file gives. -/
theorem condensed_tables_are_experiments :
    (∀ rows tables, (condense rows).outcome = .ok tables →
      tables.Holds rows ∧
      (Variant.all.map fun v =>
        ((experimentsOf v false rows).map Experiment.repetitions).sum +
          ((experimentsOf v true rows).map Experiment.repetitions).sum).sum = rows.length) ∧
    (∀ options input stem tree report,
      (aggregate options input stem tree).2.outcome = .ok report →
      ∃ rows, Session.measurementsAt tree input = .ok rows ∧
        (inspect (some options.repetitions) input tree).outcome =
          .ok (experiments (keepRates options.repetitions rows)) ∧
        report.tables.Holds (keepRates options.repetitions rows)) := by
  refine ⟨fun rows tables h => ⟨holds_of_condense h, sum_repetitions_experimentsOf rows⟩, ?_⟩
  intro options input stem tree report h
  obtain ⟨hrep, bytes, rows, hbytes, hrows, htables, -⟩ := aggregate_eq_ok h
  exact ⟨rows, measurementsAt_of_read hbytes hrows, inspect_of_read hrep hbytes hrows,
    holds_of_condense htables⟩

/-- Measurements of both variants with a single client at rate one and with multiple clients at rates
one and two, of which those at rate one are made twice. -/
def mixedRows : List Measurement :=
  [false, true].flatMap fun malicious =>
    [(1, false, 8), (1, true, 8), (1, true, 16), (2, true, 8)].map fun (rate, multiClient, time) =>
      ⟨1024, 16, 32, malicious, rate, multiClient, 8, Vector.replicate 12 64,
        Vector.replicate 6 time⟩

/-- A directory with the table of these measurements. -/
def mixedTree : FileTree :=
  let table := Csv.write Measurement.requiredColumns <|
    ["False", "True"].flatMap fun malicious =>
      [("1", "False", "8"), ("1", "True", "8"), ("1", "True", "16"), ("2", "True", "8")].map
        fun (rate, multiClient, time) =>
          ["1024", "16", "32", malicious, rate, multiClient, "8"] ++ List.replicate 12 "64" ++
            List.replicate 6 time
  FileTree.fresh.put ["raw.csv"] (.file table.1)

set_option maxRecDepth 100000 in
theorem measurementsAt_mixedTree :
    Session.measurementsAt mixedTree "raw.csv" = .ok mixedRows := by
  decide +kernel

theorem takes_mixedTree {kind : TableKind} (h : kind ∈ writtenKinds true) :
    mixedTree.Takes (kind.path "means") := by
  have hplaces : ∀ kind ∈ writtenKinds true,
      mixedTree.destination (kind.path "means") = .ok [kind.path "means"] ∧
        mixedTree.node? [kind.path "means"] ≠ some .full := by
    decide +kernel
  exact ⟨_, hplaces kind h⟩

theorem condense_mixedRows : ∃ tables, (condense mixedRows).outcome = .ok tables := by
  have hrates : ∀ m ∈ mixedRows, ¬(m.multiClient = false ∧ m.rate = 0) := by decide +kernel
  refine exists_eq_ok_iff.mpr fun error h => ?_
  obtain ⟨m, hm, hzero⟩ := (exists_condense_error_iff (by decide)).mp ⟨error, h⟩
  exact hrates m hm hzero

/-- Repetitions share a row, and no table is empty. -/
theorem TableSet.Holds.length_mixedRows {tables : TableSet} (h : tables.Holds mixedRows)
    (v : Variant) :
    (tables.of v).bandwidth.length = 1 ∧ (tables.of v).multiClient.length = 2 ∧
      (tables.of v).singleClient.length = 1 := by
  rw [(h.bandwidth v).length_eq, (h.multiClient v).length_eq, (h.singleClient v).length_eq,
    List.length_map, List.length_map, List.length_map]
  cases v <;> decide +kernel

theorem aggregate_mixedTree :
    ∃ report, (aggregate { singleClient := true } "raw.csv" "means" mixedTree).2.outcome =
      .ok report ∧ (condense mixedRows).outcome = .ok report.tables := by
  obtain ⟨tables, htables⟩ := condense_mixedRows
  obtain ⟨bytes, hbytes, hrows⟩ := bind_eq_ok_iff.mp measurementsAt_mixedTree
  have hall : keepRates 20 mixedRows = mixedRows := by decide +kernel
  have hkept : (condense (keepRates 20 mixedRows)).outcome = .ok tables := by
    rw [hall]
    exact htables
  have hsucceeds : ∃ report, (aggregate { singleClient := true } "raw.csv" "means"
      mixedTree).2.outcome = .ok report ∧ report.tables = tables :=
    aggregate_ok (by decide) hbytes hrows hkept fun _ => takes_mixedTree
  obtain ⟨report, hreport, rfl⟩ := hsucceeds
  exact ⟨report, hreport, htables⟩

theorem condensed_tables_are_experiments_mixed :
    (∃ tables, (condense mixedRows).outcome = .ok tables ∧ tables.Holds mixedRows) ∧
    ∃ report, (aggregate { singleClient := true } "raw.csv" "means" mixedTree).2.outcome =
        .ok report ∧
      (∀ v, (report.tables.of v).bandwidth.length = 1 ∧
        (report.tables.of v).multiClient.length = 2 ∧
        (report.tables.of v).singleClient.length = 1) ∧
      ∃ rows, Session.measurementsAt mixedTree "raw.csv" = .ok rows ∧
        (inspect (some 20) "raw.csv" mixedTree).outcome =
          .ok (experiments (keepRates 20 rows)) ∧
        report.tables.Holds (keepRates 20 rows) := by
  obtain ⟨hrows, hruns⟩ := condensed_tables_are_experiments
  obtain ⟨report, hreport, htables⟩ := aggregate_mixedTree
  obtain ⟨hholds, -⟩ := hrows _ _ htables
  exact ⟨⟨report.tables, htables, hholds⟩,
    ⟨report, hreport, hholds.length_mixedRows,
      hruns { singleClient := true } "raw.csv" "means" mixedTree report hreport⟩⟩

end BenchTables
