import BenchTables.Command.Render
import BenchTables.Proofs.Command.Agreement
import BenchTables.Proofs.Condensed.Kind
import BenchTables.Proofs.Latex.Gaps
import BenchTables.Proofs.Latex.Refusal

/-!
# Rendering what was aggregated

The tables that a run of aggregating wrote are read back by rendering, so that rendering comes to
what it would come to in memory: it is refused for what the tables themselves are refused for, and
otherwise writes the two LaTeX tables of the rows that were read back (`RendersAs`).
-/

namespace BenchTables

open Files CondensedRow

/-! ## What rendering comes to -/

/-- The files of the two LaTeX tables. -/
def renderedFiles (stem bandwidth roundTrip : String) : List Output :=
  [⟨suffixed stem "_bw.tex", Text.encode bandwidth⟩,
    ⟨suffixed stem "_rt.tex", Text.encode roundTrip⟩]

/-- What rendering delivers once both tables are made. -/
def renderDelivery (stem bandwidth roundTrip : String) : Delivery RenderError Rendered :=
  let files := renderedFiles stem bandwidth roundTrip
  { files
    refused := fun output failure => .cannotWrite output.path failure.cause
    closing := files.map fun output => savedEntry output.path
    result := ⟨files⟩ }

theorem renderPlan_outcome (labels : Latex.RowLabels) (input stem : String)
    (read : String → Except ReadFailure (List UInt8)) :
    (renderPlan labels input stem read).outcome = (do
      let bandwidthNoAuth ←
        (readCondensed .bandwidth (TableKind.path (.bandwidth .noAuth) input) read).outcome
      let bandwidthAuth ←
        (readCondensed .bandwidth (TableKind.path (.bandwidth .auth) input) read).outcome
      let latencyNoAuth ←
        (readCondensed .latency (TableKind.path (.multiClient .noAuth) input) read).outcome
      let latencyAuth ←
        (readCondensed .latency (TableKind.path (.multiClient .auth) input) read).outcome
      let roundTrip ←
        (Latex.roundTripTable labels latencyNoAuth latencyAuth).mapError RenderError.roundTrip
      return renderDelivery stem (Latex.bandwidthTable labels bandwidthNoAuth bandwidthAuth)
        roundTrip) := by
  rw [renderPlan]
  simp only [Traced.outcome_bind, Traced.note, Traced.outcome_report, Traced.outcome_silent,
    Traced.outcome_pure, ok_bind]
  rfl

theorem readCondensed_of_read {n : ℕ} {schema : Schema n} {path : String} {bytes : List UInt8}
    {rows : List (CondensedRow n)} {read : String → Except ReadFailure (List UInt8)}
    (hread : read path = .ok bytes) (hrows : readTable schema path bytes = .ok rows) :
    (readCondensed schema path read).outcome = .ok rows := by
  have hbytes : tableBytes path (read path) = .ok bytes := by
    rw [hread]
    rfl
  rw [readCondensed, Traced.outcome_silent, hbytes, ok_bind, hrows]
  rfl

/-! ## After aggregating -/

variable {options : Aggregation} {input stem output : String} {tree : FileTree}
  {report : Aggregated}

theorem read_output (h : (aggregate options input stem tree).2.outcome = .ok report)
    {kind : TableKind} (hkind : kind ∈ writtenKinds options.singleClient) :
    (aggregate options input stem tree).1.read (kind.path stem) =
      .ok (report.tables.output stem kind).content := by
  obtain ⟨-, _, _, -, -, -, hfiles, hwritten⟩ := aggregate_eq_ok h
  have hok : (tree.writeAll report.files).2 = .ok () := by rw [hwritten]
  have hread := FileTree.read_writeAll hok
    (by rw [hfiles]; exact apart_outputs report.tables stem options.singleClient)
    (report.tables.output stem kind) (by rw [hfiles]; exact List.mem_map_of_mem hkind)
  rw [hwritten, TableSet.output_path] at hread
  exact hread

theorem mem_writtenKinds_of_mem_renderedKinds {kind : TableKind} (h : kind ∈ renderedKinds)
    (singleClient : Bool) : kind ∈ writtenKinds singleClient :=
  List.mem_append_left _ h

theorem readCondensed_bandwidth (h : (aggregate options input stem tree).2.outcome = .ok report)
    (v : Variant) :
    (readCondensed .bandwidth (TableKind.path (.bandwidth v) stem)
      (aggregate options input stem tree).1.read).outcome =
        .ok ((report.tables.of v).bandwidth.map reread) := by
  obtain ⟨-, _, _, -, -, hcondense, -⟩ := aggregate_eq_ok h
  have hkind : TableKind.bandwidth v ∈ renderedKinds := by cases v <;> decide
  exact readCondensed_of_read (read_output h (mem_writtenKinds_of_mem_renderedKinds hkind _))
    (readTable_write Schema.bandwidth_distinct Schema.bandwidth_trimmed _
      ((holds_of_condense hcondense).trim_id_bandwidth v))

theorem readCondensed_multiClient (h : (aggregate options input stem tree).2.outcome = .ok report)
    (v : Variant) :
    (readCondensed .latency (TableKind.path (.multiClient v) stem)
      (aggregate options input stem tree).1.read).outcome =
        .ok ((report.tables.of v).multiClient.map reread) := by
  obtain ⟨-, _, _, -, -, hcondense, -⟩ := aggregate_eq_ok h
  have hkind : TableKind.multiClient v ∈ renderedKinds := by cases v <;> decide
  exact readCondensed_of_read (read_output h (mem_writtenKinds_of_mem_renderedKinds hkind _))
    (readTable_write Schema.latency_distinct Schema.latency_trimmed _
      ((holds_of_condense hcondense).trim_id_multiClient v))

theorem renderPlan_after_aggregate (labels : Latex.RowLabels) (output : String)
    (h : (aggregate options input stem tree).2.outcome = .ok report) :
    (renderPlan labels stem output (aggregate options input stem tree).1.read).outcome = (do
      let roundTrip ← (Latex.roundTripTable labels (report.tables.noAuth.multiClient.map reread)
        (report.tables.auth.multiClient.map reread)).mapError RenderError.roundTrip
      return renderDelivery output (Latex.bandwidthTable labels
        (report.tables.noAuth.bandwidth.map reread) (report.tables.auth.bandwidth.map reread))
          roundTrip) := by
  rw [renderPlan_outcome, readCondensed_bandwidth h, ok_bind, readCondensed_bandwidth h, ok_bind,
    readCondensed_multiClient h, ok_bind, readCondensed_multiClient h, ok_bind]
  rfl

theorem sizesAndRates_reread (rows : List LatencyRow) :
    Latex.sizesAndRates (rows.map reread) = Latex.sizesAndRates rows := by
  rw [Latex.sizesAndRates, List.map_map]
  rfl

/-- Rendering tables to files comes to what it comes to in memory: what the round-trip table is
refused for is the error and no file changes, and otherwise the files are the tables of the same
rows with each quantity as its two decimals are read. -/
def RendersAs (labels : Latex.RowLabels) (tables : TableSet) (output : String) (before : FileTree)
    (rendered : FileTree × Traced RenderError Rendered) : Prop :=
  (∀ e, Latex.roundTripTable labels tables.noAuth.multiClient tables.auth.multiClient = .error e →
    rendered.2.outcome = .error (.roundTrip e) ∧ rendered.1 = before) ∧
  (∀ inMemory,
    Latex.roundTripTable labels tables.noAuth.multiClient tables.auth.multiClient = .ok inMemory →
    ∃ roundTrip,
      Latex.roundTripTable labels (tables.noAuth.multiClient.map reread)
        (tables.auth.multiClient.map reread) = .ok roundTrip ∧
      let files := renderedFiles output (Latex.bandwidthTable labels
        (tables.noAuth.bandwidth.map reread) (tables.auth.bandwidth.map reread)) roundTrip
      rendered.2.outcome = .ok ⟨files⟩ ∧ rendered.1 = (before.writeAll files).1 ∧
        ∀ file ∈ files, rendered.1.read file.path = .ok file.content)

theorem apart_renderedFiles (stem bandwidth roundTrip : String) :
    (renderedFiles stem bandwidth roundTrip).Pairwise fun a b => Apart a.path b.path :=
  List.pairwise_pair.mpr (apart_suffixed (by decide) (by decide) (by decide))

/-- After aggregating, rendering under the same stem comes to what it comes to in memory, as long as
its own two files can be written. -/
theorem render_after_aggregate (labels : Latex.RowLabels)
    (h : (aggregate options input stem tree).2.outcome = .ok report)
    (hbandwidth : (aggregate options input stem tree).1.Takes (suffixed output "_bw.tex"))
    (hroundTrip : (aggregate options input stem tree).1.Takes (suffixed output "_rt.tex")) :
    RendersAs labels report.tables output (aggregate options input stem tree).1
      (render labels stem output (aggregate options input stem tree).1) := by
  have hplan := renderPlan_after_aggregate labels output h
  have hrefusal := Latex.refusal_roundTripTable labels
    (sizesAndRates_reread report.tables.noAuth.multiClient)
    (sizesAndRates_reread report.tables.auth.multiClient)
  -- Sizes and rates are read back as they were, so both tables are refused for the same reason.
  constructor
  · intro e he
    rw [he] at hrefusal
    rw [refusal_eq_some_iff.mp hrefusal] at hplan
    have hcarried := Plan.carryOut_of_error _ (aggregate options input stem tree).1 _ hplan
    rw [render, hcarried]
    exact ⟨rfl, rfl⟩
  · intro inMemory hmade
    rw [hmade] at hrefusal
    obtain ⟨roundTrip, hreread⟩ := refusal_eq_none_iff.mp hrefusal
    rw [hreread] at hplan
    have htakes : ∀ bandwidth, ∀ file ∈ renderedFiles output bandwidth roundTrip,
        (aggregate options input stem tree).1.Takes file.path := by
      intro bandwidth
      simpa [renderedFiles] using ⟨hbandwidth, hroundTrip⟩
    have hwritten := FileTree.writeAll_ok (htakes (Latex.bandwidthTable labels
      (report.tables.noAuth.bandwidth.map reread) (report.tables.auth.bandwidth.map reread)))
    obtain ⟨houtcome, hafter⟩ := carryOut_of_written hplan hwritten
    refine ⟨roundTrip, hreread, houtcome, hafter, ?_⟩
    rw [render, hafter]
    exact FileTree.read_writeAll hwritten (apart_renderedFiles _ _ _)

/-- Both variants have a row at either rate, so the round-trip table has no gap. -/
theorem roundTripTable_mixedRows : ∃ text, Latex.roundTripTable {}
    (latencyRows (select .noAuth true mixedRows)) (latencyRows (select .auth true mixedRows)) =
      .ok text := by
  rw [Latex.exists_roundTripTable_iff, Latex.exists_blocks_iff,
    latencyRows_of_pairwise (by decide +kernel), latencyRows_of_pairwise (by decide +kernel)]
  refine ⟨by decide +kernel, fun p => Latex.not_isGap_of_forall ?_⟩
  intro row hrow other hother v
  revert row other
  cases v <;> decide +kernel

/-- Tables with rows of both variants and both kinds of clients are rendered. -/
theorem render_after_aggregate_mixed :
    ∃ report, (aggregate { singleClient := true } "raw.csv" "means" mixedTree).2.outcome =
        .ok report ∧
      (∃ text, Latex.roundTripTable {} report.tables.noAuth.multiClient
        report.tables.auth.multiClient = .ok text) ∧
      RendersAs {} report.tables "paper"
        (aggregate { singleClient := true } "raw.csv" "means" mixedTree).1
        (render {} "means" "paper"
          (aggregate { singleClient := true } "raw.csv" "means" mixedTree).1) := by
  obtain ⟨report, h, htables⟩ := aggregate_mixedTree
  have hbandwidth : mixedTree.Takes (suffixed "paper" "_bw.tex") :=
    ⟨["paper_bw.tex"], by decide +kernel, by decide +kernel⟩
  have hroundTrip : mixedTree.Takes (suffixed "paper" "_rt.tex") :=
    ⟨["paper_rt.tex"], by decide +kernel, by decide +kernel⟩
  refine ⟨report, h, ?_,
    render_after_aggregate {} h (hbandwidth.carryOut _) (hroundTrip.carryOut _)⟩
  have hnoAuth : report.tables.noAuth.multiClient = latencyRows (select .noAuth true mixedRows) :=
    (condense_eq_ok htables .noAuth).2.1
  have hauth : report.tables.auth.multiClient = latencyRows (select .auth true mixedRows) :=
    (condense_eq_ok htables .auth).2.1
  rw [hnoAuth, hauth]
  exact roundTripTable_mixedRows

end BenchTables
