import BenchTables.Proofs.Command.Agreement
import BenchTables.Proofs.Condensed.Kind
import BenchTables.Proofs.Files.Stopping

/-!
# Aggregating that fails

Everything that can be wrong with a request or with its table is found before the first file is
written, so such a run leaves the tree as it is.  A run can only fail later at a file that it cannot
write.  Then the files before that one stand with the content of a run that succeeds, and nothing
else has changed (`aggregate_failure`).
-/

namespace BenchTables

open Files

namespace Aggregation

/-- What a run is refused for before it writes anything: it keeps no rate, its table cannot be
opened, decoded or read, or one of the experiments has rate zero. -/
inductive RefusesInput (options : Aggregation) (input : String) (tree : FileTree) :
    AggregateError → Prop
  | noRepetitions (hrep : options.repetitions = 0) : RefusesInput options input tree .noRepetitions
  | unreadable {error : TableError} (hrep : options.repetitions ≠ 0)
      (hrows : Session.measurementsAt tree input = .error error) :
      RefusesInput options input tree (.table error)
  | zeroRate {rows : List Measurement} {error : CondenseError} (hrep : options.repetitions ≠ 0)
      (hrows : Session.measurementsAt tree input = .ok rows)
      (hcondense : (condense (keepRates options.repetitions rows)).outcome = .error error) :
      RefusesInput options input tree (.condense error)

/-- A run comes to these tables, which it has yet to write. -/
def Condenses (options : Aggregation) (input : String) (tree : FileTree) (tables : TableSet) :
    Prop :=
  options.repetitions ≠ 0 ∧ ∃ rows, Session.measurementsAt tree input = .ok rows ∧
    (condense (keepRates options.repetitions rows)).outcome = .ok tables

/-- The files of tables in the order in which a run writes them. -/
def outputs (options : Aggregation) (stem : String) (tables : TableSet) : List Output :=
  (writtenKinds options.singleClient).map (tables.output stem)

/-- The names of these files, as they follow the stem. -/
def suffixes (options : Aggregation) : List String :=
  ["_BW_NoAuth.csv", "_BW_Auth.csv", "_RT_Multi_NoAuth.csv", "_RT_Multi_Auth.csv"] ++
    if options.singleClient then ["_RT_Single_NoAuth.csv", "_RT_Single_Auth.csv"] else []

/-- A run comes to its tables and writes the outputs `done`, and then `output` is refused. -/
structure StopsAt (options : Aggregation) (input stem : String) (tree : FileTree)
    (tables : TableSet) (done : List Output) (output : Output) (failure : WriteFailure) : Prop where
  condenses : options.Condenses input tree tables
  order : done ++ [output] <+: options.outputs stem tables
  written : (tree.writeAll done).2 = .ok ()
  refused : ((tree.writeAll done).1.write output.path output.content).2 = .error failure

end Aggregation

variable {options : Aggregation} {input stem : String} {tree : FileTree} {tables : TableSet}
  {rows : List Measurement} {done : List Output} {output : Output} {failure : WriteFailure}

/-! ## Before the first file -/

theorem aggregatePlan_of_unreadable {error : TableError} (hrep : options.repetitions ≠ 0)
    (hrows : Session.measurementsAt tree input = .error error) :
    (aggregatePlan options input stem tree.read).outcome = .error (.table error) := by
  rw [aggregatePlan_outcome hrep]
  unfold Session.measurementsAt at hrows
  cases hbytes : tableBytes input (tree.read input) with
  | error refused =>
    rw [hbytes] at hrows
    cases hrows
    rfl
  | ok bytes =>
    rw [hbytes, ok_bind] at hrows
    change Except.mapError AggregateError.table (Measurement.readTable input bytes) >>= _ = _
    rw [hrows]
    rfl

theorem aggregatePlan_of_rows (hrep : options.repetitions ≠ 0)
    (hrows : Session.measurementsAt tree input = .ok rows) :
    (aggregatePlan options input stem tree.read).outcome = (do
      let tables ←
        (condense (keepRates options.repetitions rows)).outcome.mapError AggregateError.condense
      return options.delivery stem rows tables) := by
  obtain ⟨bytes, hbytes, hrows⟩ := bind_eq_ok_iff.mp hrows
  rw [aggregatePlan_outcome hrep, hbytes]
  change Except.mapError AggregateError.table (Measurement.readTable input bytes) >>= _ = _
  rw [hrows]
  rfl

theorem Aggregation.RefusesInput.plan {error : AggregateError}
    (h : options.RefusesInput input tree error) (stem : String) :
    (aggregatePlan options input stem tree.read).outcome = .error error := by
  cases h with
  | noRepetitions hrep => exact aggregatePlan_zero hrep input stem tree.read
  | unreadable hrep hrows => exact aggregatePlan_of_unreadable hrep hrows
  | zeroRate hrep hrows hcondense =>
    rw [aggregatePlan_of_rows hrep hrows, hcondense]
    rfl

theorem Aggregation.Condenses.plan (h : options.Condenses input tree tables) (stem : String) :
    ∃ rows, (aggregatePlan options input stem tree.read).outcome =
      .ok (options.delivery stem rows tables) := by
  obtain ⟨hrep, rows, hrows, hcondense⟩ := h
  refine ⟨rows, ?_⟩
  rw [aggregatePlan_of_rows hrep hrows, hcondense]
  rfl

/-- A run is refused for its input, or comes to tables. -/
theorem refusesInput_or_condenses (options : Aggregation) (input : String) (tree : FileTree) :
    (∃ error, options.RefusesInput input tree error) ∨
      ∃ tables, options.Condenses input tree tables := by
  by_cases hrep : options.repetitions = 0
  · exact Or.inl ⟨_, .noRepetitions hrep⟩
  cases hrows : Session.measurementsAt tree input with
  | error error => exact Or.inl ⟨_, .unreadable hrep hrows⟩
  | ok rows =>
    cases hcondense : (condense (keepRates options.repetitions rows)).outcome with
    | error error => exact Or.inl ⟨_, .zeroRate hrep hrows hcondense⟩
    | ok tables => exact Or.inr ⟨tables, hrep, rows, hrows, hcondense⟩

/-- A run that is refused for its input has no files to write. -/
theorem Aggregation.RefusesInput.aggregate_eq {error : AggregateError}
    (h : options.RefusesInput input tree error) (stem : String) :
    (aggregate options input stem tree).2.outcome = .error error ∧
      (aggregate options input stem tree).1 = tree := by
  have hcarried := Plan.carryOut_of_error _ tree error (h.plan stem)
  rw [aggregate, hcarried]
  exact ⟨rfl, rfl⟩

/-! ## At a file -/

theorem Aggregation.outputs_path (options : Aggregation) (stem : String) (tables : TableSet) :
    (options.outputs stem tables).map Output.path = options.suffixes.map (stem ++ ·) := by
  have hpath : Output.path ∘ tables.output stem = fun kind => stem ++ kind.suffix := by
    funext kind
    exact tables.output_path stem kind
  have hkinds : (writtenKinds options.singleClient).map TableKind.suffix = options.suffixes := by
    unfold Aggregation.suffixes
    cases options.singleClient <;> decide
  rw [Aggregation.outputs, List.map_map, hpath, ← hkinds, List.map_map]
  rfl

/-- A plan whose files cannot all be written fails at the first of them that is refused. -/
theorem carryOut_of_stopped {ε α : Type} {plan : Plan ε α} {d : Delivery ε α} {after : FileTree}
    (hplan : plan.outcome = .ok d)
    (hstop : tree.writeAll d.files = (after, .error (output, failure))) :
    plan.carryOut tree = (after, ⟨plan.log, .error (d.refused output failure)⟩) := by
  unfold Plan.carryOut Plan.files Plan.conclude
  rw [hplan]
  dsimp only
  rw [hstop]

/-- A plan whose outputs can be written up to one that is refused leaves those before it. -/
theorem carryOut_of_refused {ε α : Type} {plan : Plan ε α} {d : Delivery ε α} {rest : List Output}
    (hplan : plan.outcome = .ok d) (hfiles : d.files = done ++ output :: rest)
    (hwritten : (tree.writeAll done).2 = .ok ())
    (hrefused : ((tree.writeAll done).1.write output.path output.content).2 = .error failure) :
    (plan.carryOut tree).2.outcome = .error (d.refused output failure) ∧
      (plan.carryOut tree).1 = (tree.writeAll done).1 := by
  have hstop : tree.writeAll d.files = ((tree.writeAll done).1, .error (output, failure)) := by
    rw [hfiles, FileTree.writeAll_append hwritten]
    exact FileTree.writeAll_cons_of_error hrefused rest
  rw [carryOut_of_stopped hplan hstop]
  exact ⟨rfl, rfl⟩

/-- A run that stops at an output says so, and leaves the outputs before it. -/
theorem Aggregation.StopsAt.aggregate_eq
    (h : options.StopsAt input stem tree tables done output failure) :
    (aggregate options input stem tree).2.outcome =
        .error (.table (.ofWrite output.path output.content.length failure)) ∧
      tree.LeftBy done (aggregate options input stem tree).1 := by
  obtain ⟨rows, hplan⟩ := h.condenses.plan stem
  obtain ⟨rest, hrest⟩ := h.order
  rw [List.append_assoc] at hrest
  obtain ⟨houtcome, hafter⟩ := carryOut_of_refused hplan hrest.symm h.written h.refused
  refine ⟨houtcome, ?_⟩
  rw [aggregate, hafter]
  -- What was written are the first of outputs that are all apart.
  have hapart := apart_outputs tables stem options.singleClient
  change (options.outputs stem tables).Pairwise _ at hapart
  rw [← hrest] at hapart
  exact FileTree.leftBy_writeAll h.written (List.pairwise_append.mp hapart).1

/-- A run that comes to its tables succeeds, or stops at one of their files. -/
theorem Aggregation.Condenses.aggregate_cases (h : options.Condenses input tree tables)
    (stem : String) :
    (∃ report, (aggregate options input stem tree).2.outcome = .ok report ∧
      report.tables = tables ∧ report.files = options.outputs stem tables ∧
      tree.LeftBy report.files (aggregate options input stem tree).1) ∨
    ∃ done output failure, options.StopsAt input stem tree tables done output failure := by
  obtain ⟨rows, hplan⟩ := h.plan stem
  have hfiles : (options.delivery stem rows tables).files = options.outputs stem tables := rfl
  rcases hwritten : tree.writeAll (options.outputs stem tables) with ⟨after, ⟨output, failure⟩ | _⟩
  · right
    obtain ⟨done, rest, hsplit, hdone, hrefused⟩ :=
      FileTree.writeAll_eq_error (congrArg Prod.snd hwritten)
    refine ⟨done, output, failure, h, ⟨rest, ?_⟩, hdone, hrefused⟩
    rw [hsplit, List.append_assoc, List.singleton_append]
  · left
    have hok : (tree.writeAll (options.outputs stem tables)).2 = .ok () := by rw [hwritten]
    rw [← hfiles] at hok
    obtain ⟨houtcome, hafter⟩ := carryOut_of_written hplan hok
    refine ⟨_, houtcome, rfl, rfl, ?_⟩
    rw [aggregate, hafter]
    exact FileTree.leftBy_writeAll hok (apart_outputs tables stem options.singleClient)

theorem Aggregation.Condenses.of_read_eq {other : FileTree}
    (h : options.Condenses input tree tables) (hread : other.read input = tree.read input) :
    options.Condenses input other tables := by
  obtain ⟨hrep, rows, hrows, hcondense⟩ := h
  refine ⟨hrep, rows, ?_, hcondense⟩
  rw [Session.measurementsAt, hread]
  exact hrows

/-- A run that fails is refused before it writes anything, and then it leaves the tree as it was,
or it stops at an output, and then it leaves the outputs before that one, each with the content that
it has after a run that succeeds. -/
theorem aggregate_failure (options : Aggregation) (input stem : String) (tree : FileTree) :
    (∀ error, options.RefusesInput input tree error →
      (aggregate options input stem tree).2.outcome = .error error ∧
        (aggregate options input stem tree).1 = tree) ∧
    (∀ tables done output cause,
      options.StopsAt input stem tree tables done output (.creating cause) →
        (aggregate options input stem tree).2.outcome =
            .error (.table (.cannotCreate output.path cause)) ∧
          tree.LeftBy done (aggregate options input stem tree).1) ∧
    (∀ error, (aggregate options input stem tree).2.outcome = .error error →
      options.RefusesInput input tree error ∧ (aggregate options input stem tree).1 = tree ∨
      ∃ tables done output failure,
        options.StopsAt input stem tree tables done output failure ∧
        error = .table (.ofWrite output.path output.content.length failure) ∧
        tree.LeftBy done (aggregate options input stem tree).1) ∧
    (∀ tables, options.Condenses input tree tables →
      (options.outputs stem tables).map Output.path = options.suffixes.map (stem ++ ·) ∧
      ∀ other report, other.read input = tree.read input →
        (aggregate options input stem other).2.outcome = .ok report →
          report.tables = tables ∧ report.files = options.outputs stem tables ∧
            other.LeftBy report.files (aggregate options input stem other).1) := by
  refine ⟨fun error h => h.aggregate_eq stem,
    fun tables done output cause h => h.aggregate_eq, ?_, ?_⟩
  · intro error herror
    rcases refusesInput_or_condenses options input tree with
      ⟨refusal, hrefusal⟩ | ⟨tables, htables⟩
    · left
      obtain ⟨houtcome, hsame⟩ := hrefusal.aggregate_eq stem
      rw [houtcome] at herror
      cases herror
      exact ⟨hrefusal, hsame⟩
    · right
      -- With tables made a run either succeeds or stops at one of their files.
      rcases htables.aggregate_cases stem with ⟨report, hreport, -⟩ | ⟨done, output, failure, hstop⟩
      · rw [hreport] at herror
        cases herror
      · obtain ⟨houtcome, hleft⟩ := hstop.aggregate_eq
        rw [houtcome] at herror
        cases herror
        exact ⟨tables, done, output, failure, hstop, rfl, hleft⟩
  · intro tables htables
    refine ⟨options.outputs_path stem tables, fun other report hread hreport => ?_⟩
    -- Where the same bytes are read the same tables are made, whatever else is in the tree.
    rcases (htables.of_read_eq hread).aggregate_cases stem with
      ⟨same, hsame, hresult⟩ | ⟨done, output, failure, hstop⟩
    · obtain rfl : same = report := Except.ok.inj (hsame.symm.trans hreport)
      exact hresult
    · rw [hstop.aggregate_eq.1] at hreport
      cases hreport

/-- A measurement of a single client at rate one. -/
def oneMeasurement : Measurement :=
  ⟨1024, 16, 32, false, 1, false, 8, Vector.replicate 12 512.5, Vector.replicate 6 2500.0⟩

/-- A directory with the table of that measurement. -/
def oneMeasurementTree : FileTree :=
  let table := Csv.write Measurement.requiredColumns
    [["1024", "16", "32", "False", "1", "False", "8"] ++
      List.replicate 12 "512.5" ++ List.replicate 6 "2500"]
  FileTree.fresh.put ["raw.csv"] (.file table.1)

set_option maxRecDepth 100000 in
theorem aggregate_oneMeasurementTree :
    ∃ report, (aggregate {} "raw.csv" "means" oneMeasurementTree).2.outcome = .ok report :=
  exists_eq_ok_of_isOk (by decide +kernel)

/-- The tree with one measurement and a directory where the second output would be. -/
def blockedTree : FileTree :=
  oneMeasurementTree.put ["means_BW_Auth.csv"] .directory

/-- The tables of that measurement. -/
def oneMeasurementTables : TableSet :=
  (condense [oneMeasurement]).outcome.toOption.getD ⟨⟨[], [], []⟩, ⟨[], [], []⟩⟩

set_option maxRecDepth 100000 in
theorem stopsAt_blockedTree :
    Aggregation.StopsAt {} "raw.csv" "means" blockedTree oneMeasurementTables
      [oneMeasurementTables.output "means" (.bandwidth .noAuth)]
      (oneMeasurementTables.output "means" (.bandwidth .auth)) (.creating .isDirectory) where
  condenses := ⟨by decide, [oneMeasurement], by decide +kernel, by decide +kernel⟩
  order := by decide +kernel
  written := by decide +kernel
  refused := by decide +kernel

/-- A request without repetitions, and a run that is blocked at its second file: the first file is
what it is where nothing is in the way. -/
theorem aggregate_failure_blockedTree :
    ((aggregate { repetitions := 0 } "raw.csv" "means" blockedTree).2.outcome =
        .error .noRepetitions ∧
      (aggregate { repetitions := 0 } "raw.csv" "means" blockedTree).1 = blockedTree) ∧
    ((aggregate {} "raw.csv" "means" blockedTree).2.outcome =
        .error (.table (.cannotCreate "means_BW_Auth.csv" .isDirectory)) ∧
      blockedTree.LeftBy [oneMeasurementTables.output "means" (.bandwidth .noAuth)]
        (aggregate {} "raw.csv" "means" blockedTree).1) ∧
    (∃ tables done output failure,
      Aggregation.StopsAt {} "raw.csv" "means" blockedTree tables done output failure) ∧
    ∃ report, (aggregate {} "raw.csv" "means" oneMeasurementTree).2.outcome = .ok report ∧
      report.files.head? = some (oneMeasurementTables.output "means" (.bandwidth .noAuth)) := by
  obtain ⟨-, hstops, hany, hfiles⟩ := aggregate_failure {} "raw.csv" "means" blockedTree
  have hblocked := hstops _ _ _ _ stopsAt_blockedTree
  refine ⟨?_, hblocked, ?_, ?_⟩
  · exact (aggregate_failure { repetitions := 0 } "raw.csv" "means" blockedTree).1 _
      (.noRepetitions rfl)
  · rcases hany _ hblocked.1 with ⟨hrefused, -⟩ | ⟨tables, done, output, failure, hstop, -⟩
    · -- The table can be read, so it is not what the run is refused for.
      cases hrefused with
      | unreadable hrep hrows =>
        obtain ⟨-, rows, hread, -⟩ := stopsAt_blockedTree.condenses
        rw [hread] at hrows
        cases hrows
    · exact ⟨tables, done, output, failure, hstop⟩
  · obtain ⟨report, hreport⟩ := aggregate_oneMeasurementTree
    have hread : oneMeasurementTree.read "raw.csv" = blockedTree.read "raw.csv" := by
      decide +kernel
    obtain ⟨-, hsame, -⟩ := (hfiles _ stopsAt_blockedTree.condenses).2 _ report hread hreport
    refine ⟨report, hreport, ?_⟩
    rw [hsame]
    rfl

end BenchTables
