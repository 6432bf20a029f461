import BenchTables.Proofs.Command.Agreement
import BenchTables.Proofs.Condensed.Kind
import BenchTables.Proofs.Decimal.TwoPlaces
import BenchTables.Proofs.Experiment.Rate

/-!
# Which quantities are numbers

The cells that are read are numbers, and a mean rate of zero is refused, so that no division leaves
the numbers.  A sum of numbers can: a quantity of a written table is a decimal unless a sum of the
rows of its experiment overflows, and then it is not (`quantities_published`).
-/

namespace BenchTables

open Files Decimal

/-- The quantities of a bandwidth row are decimals unless the bandwidth of these rows overflows. -/
def BandwidthRow.PublishedFrom (row : BandwidthRow) (own : List Measurement) : Prop :=
  (isDecimal (twoPlaces row.total) ↔ ¬BandwidthOverflows own) ∧
    (isDecimal (twoPlaces row.perRequest) ↔ ¬BandwidthOverflows own)

/-- The quantities of a round-trip row are decimals unless the times of these rows overflow. -/
def LatencyRow.PublishedFrom (row : LatencyRow) (own : List Measurement) : Prop :=
  (∀ p, isDecimal (twoPlaces (row.phase p)) ↔ ¬PhaseOverflows p own) ∧
    (isDecimal (twoPlaces row.total) ↔ ¬LatencyOverflows own)

variable {rows : List Measurement} {tables : TableSet} {v : Variant} {e : Experiment}

theorem isFinite_of_mem_ownRows {id : String} (h : ∀ m ∈ rows, m.IsFinite) :
    ∀ m ∈ ownRows id rows, m.IsFinite := fun m hm => h m (mem_ownRows_iff.mp hm).1

/-! ## The rows of the tables -/

theorem bandwidth_publishedFrom (h : (condense rows).outcome = .ok tables)
    (hrows : ∀ m ∈ rows, m.IsFinite) {row : BandwidthRow} (hrow : row ∈ (tables.of v).bandwidth) :
    row.PublishedFrom (ownRows row.id rows) := by
  obtain ⟨e, he, hrate, rfl⟩ := exists_experiment_of_mem_bandwidth h hrow
  have hmean := isMeanOf_of_mem_experiments he
  have htotal := hmean.isFinite_bandwidthTotal (isFinite_of_mem_ownRows hrows)
  constructor
  · rw [isDecimal_twoPlaces]
    exact htotal
  · -- The row was not refused, so its mean rate can be divided by.
    rw [isDecimal_twoPlaces]
    exact (hmean.isFinite_perRequest rate_eq_of_mem_ownRows hrate).trans htotal

theorem phase_latencyRow (e : Experiment) (p : Phase) :
    LatencyRow.phase e.latencyRow p = PerPhase.value e.latency p :=
  Vector.getElem_push_lt p.index.isLt

theorem total_latencyRow (e : Experiment) : LatencyRow.total e.latencyRow = e.latencyTotal :=
  Vector.getElem_push_eq

theorem latencyRow_publishedFrom (he : e ∈ experiments rows) (hrows : ∀ m ∈ rows, m.IsFinite) :
    LatencyRow.PublishedFrom e.latencyRow (ownRows e.id rows) := by
  have hmean := isMeanOf_of_mem_experiments he
  have hown : ∀ m ∈ ownRows e.id rows, m.IsFinite := isFinite_of_mem_ownRows hrows
  constructor
  · intro p
    rw [isDecimal_twoPlaces, phase_latencyRow]
    exact hmean.isFinite_latency hown p
  · rw [isDecimal_twoPlaces, total_latencyRow]
    exact hmean.isFinite_latencyTotal hown

theorem latency_publishedFrom (h : (condense rows).outcome = .ok tables)
    (hrows : ∀ m ∈ rows, m.IsFinite) {row : LatencyRow}
    (hrow : row ∈ (tables.of v).multiClient ++ (tables.of v).singleClient) :
    row.PublishedFrom (ownRows row.id rows) := by
  have hholds := holds_of_condense h
  rcases List.mem_append.mp hrow with hmulti | hsingle
  · obtain ⟨e, he, rfl⟩ := List.mem_map.mp ((hholds.multiClient v).mem_iff.mp hmulti)
    exact latencyRow_publishedFrom (List.mem_filter.mp he).1 hrows
  · obtain ⟨e, he, rfl⟩ := List.mem_map.mp ((hholds.singleClient v).mem_iff.mp hsingle)
    exact latencyRow_publishedFrom (List.mem_filter.mp (List.mem_filter.mp he).1).1 hrows

/-! ## The tables of a run -/

theorem isFinite_keepRates {repetitions : UInt32} (h : ∀ m ∈ rows, m.IsFinite) :
    ∀ m ∈ keepRates repetitions rows, m.IsFinite := fun m hm => h m (List.mem_filter.mp hm).1

/-- Once aggregating has succeeded, all that it has read are numbers, its tables stand in their
files, and a quantity of theirs is a decimal unless a sum of the kept rows of the same identifier
overflows. -/
theorem quantities_published {options : Aggregation} {input stem : String} {tree : FileTree}
    {report : Aggregated} (h : (aggregate options input stem tree).2.outcome = .ok report) :
    ∃ rows, Session.measurementsAt tree input = .ok rows ∧ (∀ m ∈ rows, m.IsFinite) ∧
      (∀ kind ∈ writtenKinds options.singleClient,
        (aggregate options input stem tree).1.read (kind.path stem) =
          .ok (report.tables.output stem kind).content) ∧
      ∀ v,
        (∀ row ∈ (report.tables.of v).bandwidth,
          row.PublishedFrom (ownRows row.id (keepRates options.repetitions rows))) ∧
        (∀ row ∈ (report.tables.of v).multiClient ++ (report.tables.of v).singleClient,
          row.PublishedFrom (ownRows row.id (keepRates options.repetitions rows))) := by
  obtain ⟨-, bytes, rows, hbytes, hrows, htables, hfiles, hwritten⟩ := aggregate_eq_ok h
  have hnumbers := Measurement.isFinite_of_readTable hrows
  refine ⟨rows, measurementsAt_of_read hbytes hrows, hnumbers, ?_, fun v => ⟨?_, ?_⟩⟩
  · intro kind hkind
    rw [hfiles] at hwritten
    have hread := FileTree.read_writeAll (congrArg Prod.snd hwritten)
      (apart_outputs report.tables stem options.singleClient) _ (List.mem_map_of_mem hkind)
    rwa [hwritten, TableSet.output_path] at hread
  · exact fun row => bandwidth_publishedFrom htables (isFinite_keepRates hnumbers)
  · exact fun row => latency_publishedFrom htables (isFinite_keepRates hnumbers)

/-- A directory with the table of a measurement whose first two counters add up to more than any
double, though a kibibyte of the sum would be one. -/
def greatCountersTree : FileTree :=
  let table := Csv.write Measurement.requiredColumns
    [["1024", "16", "32", "False", "1", "False", "8"] ++
      List.replicate 2 "8.98846567431158e307" ++ List.replicate 10 "0" ++ List.replicate 6 "2500"]
  FileTree.fresh.put ["raw.csv"] (.file table.1)

/-- The sum of two numbers is published as an infinity. -/
theorem greatCounters_published :
    (aggregate {} "raw.csv" "means" greatCountersTree).2.outcome.map
      (fun report => report.tables.noAuth.bandwidth.map CondensedRow.cells) =
        .ok [["10241632False1False8", "1024", "1", "inf", "inf"]] ∧
    (aggregate {} "raw.csv" "means" greatCountersTree).1.read "means_BW_NoAuth.csv" =
      .ok (Csv.write Schema.bandwidth.header
        [["10241632False1False8", "1024", "1", "inf", "inf"]]).1 ∧
    isDecimal "inf" = false := by
  decide +kernel

/-- With counters of an ordinary size the hypothesis holds as well. -/
theorem quantities_published_mixed :
    ∃ report, (aggregate { singleClient := true } "raw.csv" "means" mixedTree).2.outcome =
        .ok report ∧
      (∀ v, (report.tables.of v).bandwidth.length = 1 ∧
        (report.tables.of v).multiClient.length = 2 ∧
        (report.tables.of v).singleClient.length = 1) ∧
      ∃ rows, Session.measurementsAt mixedTree "raw.csv" = .ok rows ∧
        (∀ m ∈ rows, m.IsFinite) ∧
        (∀ kind ∈ writtenKinds true,
          (aggregate { singleClient := true } "raw.csv" "means" mixedTree).1.read
              (kind.path "means") =
            .ok (report.tables.output "means" kind).content) ∧
        ∀ v,
          (∀ row ∈ (report.tables.of v).bandwidth,
            row.PublishedFrom (ownRows row.id (keepRates 20 rows))) ∧
          (∀ row ∈ (report.tables.of v).multiClient ++ (report.tables.of v).singleClient,
            row.PublishedFrom (ownRows row.id (keepRates 20 rows))) := by
  obtain ⟨report, hreport, htables⟩ := aggregate_mixedTree
  exact ⟨report, hreport, (holds_of_condense htables).length_mixedRows,
    quantities_published hreport⟩

end BenchTables
