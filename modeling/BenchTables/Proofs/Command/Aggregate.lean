import BenchTables.Command.Inspect
import BenchTables.Proofs.Condensed.Kind
import BenchTables.Proofs.Files.Writing
import BenchTables.Proofs.Outcome

/-!
# What aggregating and inspecting come to

Reports aside, aggregating is reading, condensing and writing, and inspecting is reading and
grouping.  `aggregate_eq_ok` says what stands once aggregating has succeeded, and `aggregate_ok` when
it does.
-/

namespace BenchTables

open Files

variable {options : Aggregation} {input stem : String} {tree : FileTree}

/-- What aggregating delivers once the tables are known. -/
def Aggregation.delivery (options : Aggregation) (stem : String) (rows : List Measurement)
    (tables : TableSet) : Delivery AggregateError Aggregated :=
  let files := (writtenKinds options.singleClient).map (tables.output stem)
  { files
    refused := fun output failure => .table (.ofWrite output.path output.content.length failure)
    closing := files.map fun output => savedEntry output.path
    result := ⟨rows.length, (keepRates options.repetitions rows).length, tables, files⟩ }

theorem aggregatePlan_outcome (hrep : options.repetitions ≠ 0) (input stem : String)
    (read : String → Except ReadFailure (List UInt8)) :
    (aggregatePlan options input stem read).outcome = (do
      let bytes ← (tableBytes input (read input)).mapError AggregateError.table
      let rows ← (Measurement.readTable input bytes).mapError AggregateError.table
      let tables ←
        (condense (keepRates options.repetitions rows)).outcome.mapError AggregateError.condense
      return options.delivery stem rows tables) := by
  rw [aggregatePlan, if_neg hrep]
  simp only [Traced.outcome_bind, Traced.note, Traced.outcome_report, Traced.outcome_silent,
    Traced.outcome_mapError, Traced.outcome_pure, apply_ite Traced.outcome, ok_bind, ite_self]
  rfl

theorem aggregatePlan_zero (hrep : options.repetitions = 0) (input stem : String)
    (read : String → Except ReadFailure (List UInt8)) :
    (aggregatePlan options input stem read).outcome = .error .noRepetitions := by
  rw [aggregatePlan, if_pos hrep]
  rfl

/-- The rows that are inspected: all of them, or those whose rate is below a number of
repetitions. -/
def inspectedRows (repetitions : Option UInt32) (rows : List Measurement) : List Measurement :=
  match repetitions with
  | none => rows
  | some n => keepRates n rows

theorem inspectRows_outcome {repetitions : Option UInt32} (hrep : repetitions ≠ some 0)
    (input : String) (read : String → Except ReadFailure (List UInt8)) :
    (inspectRows repetitions input read).outcome = (do
      let bytes ← (tableBytes input (read input)).mapError AggregateError.table
      let rows ← (Measurement.readTable input bytes).mapError AggregateError.table
      return experiments (inspectedRows repetitions rows)) := by
  rw [inspectRows]
  simp only [Traced.outcome_bind, Traced.note, Traced.outcome_silent]
  cases repetitions with
  | none => rfl
  | some n =>
    have hn : n ≠ 0 := fun hzero => hrep (congrArg some hzero)
    simp only [if_neg hn]
    rfl

/-- Without repetitions nothing is inspected. -/
theorem inspectRows_zero (input : String) (read : String → Except ReadFailure (List UInt8))
    (found : List Experiment) : (inspectRows (some 0) input read).outcome ≠ .ok found := by
  intro h
  rw [inspectRows] at h
  simp only [Traced.outcome_bind, Traced.outcome_silent, if_true] at h
  obtain ⟨bytes, -, h⟩ := bind_eq_ok_iff.mp h
  obtain ⟨rows, -, h⟩ := bind_eq_ok_iff.mp h
  cases h

theorem inspectRows_eq_ok_iff {repetitions : Option UInt32}
    {read : String → Except ReadFailure (List UInt8)} {found : List Experiment} :
    (inspectRows repetitions input read).outcome = .ok found ↔
      repetitions ≠ some 0 ∧ ∃ bytes rows, tableBytes input (read input) = .ok bytes ∧
        Measurement.readTable input bytes = .ok rows ∧
        found = experiments (inspectedRows repetitions rows) := by
  by_cases hrep : repetitions = some 0
  · subst hrep
    exact iff_of_false (inspectRows_zero input read found) fun h => h.1 rfl
  rw [inspectRows_outcome hrep]
  simp only [bind_eq_ok_iff, mapError_eq_ok_iff]
  constructor
  · rintro ⟨bytes, hbytes, rows, hrows, h⟩
    cases h
    exact ⟨hrep, bytes, rows, hbytes, hrows, rfl⟩
  · rintro ⟨-, bytes, rows, hbytes, hrows, rfl⟩
    exact ⟨bytes, hbytes, rows, hrows, rfl⟩

/-! ## Carrying out -/

/-- A plan succeeds when it is made and all its files are written. -/
theorem carryOut_eq_ok {ε α : Type} {plan : Plan ε α} {result : α}
    (h : (plan.carryOut tree).2.outcome = .ok result) :
    ∃ d, plan.outcome = .ok d ∧ d.result = result ∧
      tree.writeAll d.files = ((plan.carryOut tree).1, .ok ()) := by
  rw [Plan.carryOut, Plan.files] at h ⊢
  cases hplan : plan.outcome with
  | error e =>
    rw [hplan] at h
    simp [Plan.conclude, hplan] at h
  | ok d =>
    rw [hplan] at h
    dsimp only at h ⊢
    rcases hwritten : tree.writeAll d.files with ⟨after, written⟩
    rw [hwritten] at h
    cases written with
    | error failed => simp [Plan.conclude, hplan] at h
    | ok _ =>
      simp only [Plan.conclude, hplan, Except.ok.injEq] at h
      exact ⟨d, rfl, h, hwritten⟩

theorem carryOut_of_written {ε α : Type} {plan : Plan ε α} {d : Delivery ε α}
    (hplan : plan.outcome = .ok d) (hwritten : (tree.writeAll d.files).2 = .ok ()) :
    (plan.carryOut tree).2.outcome = .ok d.result ∧
      (plan.carryOut tree).1 = (tree.writeAll d.files).1 := by
  rw [Plan.carryOut, Plan.files, hplan]
  dsimp only
  rcases h : tree.writeAll d.files with ⟨after, written⟩
  rw [h] at hwritten
  obtain rfl : written = .ok () := hwritten
  simp [Plan.conclude, hplan]

/-- Aggregating has succeeded: the table was read, its rows were condensed into the tables
reported, and the files reported were written in order. -/
theorem aggregate_eq_ok {report : Aggregated}
    (h : (aggregate options input stem tree).2.outcome = .ok report) :
    options.repetitions ≠ 0 ∧ ∃ bytes rows,
      tableBytes input (tree.read input) = .ok bytes ∧
      Measurement.readTable input bytes = .ok rows ∧
      (condense (keepRates options.repetitions rows)).outcome = .ok report.tables ∧
      report.files = (writtenKinds options.singleClient).map (report.tables.output stem) ∧
      tree.writeAll report.files = ((aggregate options input stem tree).1, .ok ()) := by
  obtain ⟨d, hplan, hresult, hwritten⟩ := carryOut_eq_ok h
  -- Without repetitions every row would be dropped, which is refused.
  have hrep : options.repetitions ≠ 0 := by
    intro hzero
    rw [aggregatePlan_zero hzero] at hplan
    cases hplan
  rw [aggregatePlan_outcome hrep] at hplan
  obtain ⟨bytes, hbytes, hplan⟩ := bind_eq_ok_iff.mp hplan
  obtain ⟨rows, hrows, hplan⟩ := bind_eq_ok_iff.mp hplan
  obtain ⟨tables, htables, hplan⟩ := bind_eq_ok_iff.mp hplan
  cases hplan
  subst hresult
  exact ⟨hrep, bytes, rows, mapError_eq_ok_iff.mp hbytes, mapError_eq_ok_iff.mp hrows,
    mapError_eq_ok_iff.mp htables, rfl, hwritten⟩

/-- Aggregating succeeds where the table is read and condensed and every file can be written. -/
theorem aggregate_ok {bytes : List UInt8} {rows : List Measurement} {tables : TableSet}
    (hrep : options.repetitions ≠ 0) (hbytes : tableBytes input (tree.read input) = .ok bytes)
    (hrows : Measurement.readTable input bytes = .ok rows)
    (htables : (condense (keepRates options.repetitions rows)).outcome = .ok tables)
    (htakes : ∀ kind ∈ writtenKinds options.singleClient, tree.Takes (kind.path stem)) :
    ∃ report, (aggregate options input stem tree).2.outcome = .ok report ∧
      report.tables = tables := by
  have hplan : (aggregatePlan options input stem tree.read).outcome =
      .ok (options.delivery stem rows tables) := by
    rw [aggregatePlan_outcome hrep, hbytes]
    change Except.mapError AggregateError.table (Measurement.readTable input bytes) >>= _ = _
    rw [hrows]
    change Except.mapError AggregateError.condense _ >>= _ = _
    rw [htables]
    rfl
  have hfiles : ∀ file ∈ (options.delivery stem rows tables).files, tree.Takes file.path := by
    intro file hfile
    obtain ⟨kind, hkind, rfl⟩ := List.mem_map.mp hfile
    rw [tables.output_path]
    exact htakes kind hkind
  exact ⟨_, (carryOut_of_written hplan (FileTree.writeAll_ok hfiles)).1, rfl⟩

theorem inspect_of_read {repetitions : UInt32} {bytes : List UInt8} {rows : List Measurement}
    (hrep : repetitions ≠ 0) (hbytes : tableBytes input (tree.read input) = .ok bytes)
    (hrows : Measurement.readTable input bytes = .ok rows) :
    (inspect (some repetitions) input tree).outcome =
      .ok (experiments (keepRates repetitions rows)) :=
  inspectRows_eq_ok_iff.mpr
    ⟨fun hzero => hrep (Option.some.inj hzero), bytes, rows, hbytes, hrows, rfl⟩

end BenchTables
