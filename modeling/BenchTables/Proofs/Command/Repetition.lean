import BenchTables.Proofs.Command.RenderFailure
import BenchTables.Proofs.Files.Rewriting

/-!
# Running again

What a command makes of a tree depends on the files that it reads, and these are none of the files
that aggregating and rendering write.  So the same calls find the same tables again, and write what
is there already (`aggregate_again`).
-/

namespace BenchTables

open Files

variable {options : Aggregation} {labels : Latex.RowLabels} {input stem output : String}
  {tree other : FileTree} {report : Aggregated}

/-! ## Plans -/

/-- A plan whose files are there leaves them, and ends as where all of them are written. -/
theorem Plan.carryOut_of_has {ε α : Type} (plan : Plan ε α)
    (h : ∀ file ∈ plan.files, tree.Has file) :
    plan.carryOut tree = (tree, plan.conclude (.ok ())) := by
  unfold Plan.carryOut
  rw [FileTree.writeAll_of_has h]

/-- A plan that is carried out again changes nothing and ends as before. -/
theorem Plan.carryOut_again {ε α : Type} (plan : Plan ε α) (tree : FileTree)
    (hapart : plan.files.Pairwise fun a b => Apart a.path b.path) :
    plan.carryOut (plan.carryOut tree).1 = plan.carryOut tree := by
  show ((_ : FileTree × Written).1, plan.conclude (_ : FileTree × Written).2) = _
  rw [show (plan.carryOut tree).1 = (tree.writeAll plan.files).1 from rfl,
    FileTree.writeAll_again tree hapart]
  rfl

/-- Aggregating looks at no file but its input. -/
theorem aggregatePlan_congr (options : Aggregation) (stem : String)
    (h : tree.read input = other.read input) :
    aggregatePlan options input stem tree.read = aggregatePlan options input stem other.read := by
  unfold aggregatePlan
  rw [h]

/-- Rendering looks at no file but its four tables. -/
theorem renderPlan_congr (labels : Latex.RowLabels) (output : String)
    (h : ∀ kind ∈ renderedKinds, tree.read (kind.path input) = other.read (kind.path input)) :
    renderPlan labels input output tree.read = renderPlan labels input output other.read := by
  have hread : ∀ {n : ℕ} (schema : Schema n), ∀ kind ∈ renderedKinds,
      readCondensed schema (kind.path input) tree.read =
        readCondensed schema (kind.path input) other.read := by
    intro n schema kind hkind
    unfold readCondensed
    rw [h kind hkind]
  unfold renderPlan
  rw [hread _ _ (mem_renderedKinds_bandwidth .noAuth),
    hread _ _ (mem_renderedKinds_bandwidth .auth),
    hread _ _ (mem_renderedKinds_multiClient .noAuth),
    hread _ _ (mem_renderedKinds_multiClient .auth)]

/-- Rendering writes nothing, or the files of the two tables. -/
theorem renderPlan_files (labels : Latex.RowLabels) (input output : String) (tree : FileTree) :
    Plan.files (renderPlan labels input output tree.read) = [] ∨ ∃ bandwidth roundTrip,
      Plan.files (renderPlan labels input output tree.read) =
        renderedFiles output bandwidth roundTrip := by
  unfold Plan.files
  rcases refusesTables_or_makesTables labels input tree with
    ⟨error, htables⟩ | ⟨bandwidth, roundTrip, hmade⟩
  · left
    rw [htables.plan output]
  · right
    refine ⟨bandwidth, roundTrip, ?_⟩
    rw [hmade.plan output]
    rfl

theorem apart_renderPlan_files (labels : Latex.RowLabels) (input output : String)
    (tree : FileTree) : (Plan.files (renderPlan labels input output tree.read)).Pairwise
      fun a b => Apart a.path b.path := by
  rcases renderPlan_files labels input output tree with hnone | ⟨bandwidth, roundTrip, hfiles⟩
  · rw [hnone]
    exact List.Pairwise.nil
  · rw [hfiles]
    exact apart_renderedFiles output bandwidth roundTrip

theorem path_of_mem_renderPlan_files {file : Output}
    (h : file ∈ Plan.files (renderPlan labels input output tree.read)) :
    file.path = suffixed output "_bw.tex" ∨ file.path = suffixed output "_rt.tex" := by
  rcases renderPlan_files labels input output tree with hnone | ⟨bandwidth, roundTrip, hfiles⟩
  · rw [hnone] at h
    cases h
  · rw [hfiles] at h
    rcases List.mem_cons.mp h with rfl | h
    · exact Or.inl rfl
    · rw [List.mem_singleton.mp h]
      exact Or.inr rfl

/-- A table is never where rendering writes, whatever the stems. -/
theorem TableKind.apart_rendered (kind : TableKind) (stem : String) {file : Output}
    (h : file ∈ Plan.files (renderPlan labels input output tree.read)) :
    Apart (kind.path stem) file.path := by
  have htable : kind.suffix.toList.getLast? = some 'v' := by
    rcases kind with v | v | v <;> cases v <;> decide
  rcases path_of_mem_renderPlan_files h with hpath | hpath
  · rw [hpath]
    exact apart_suffixed_of_getLast? kind.namesFile_suffix (by decide) (by rw [htable]; decide)
  · rw [hpath]
    exact apart_suffixed_of_getLast? kind.namesFile_suffix (by decide) (by rw [htable]; decide)

/-! ## Aggregating -/

theorem tableBytes_eq_ok {path : String} {result : Except ReadFailure (List UInt8)}
    {bytes : List UInt8} (h : tableBytes path result = .ok bytes) : result = .ok bytes := by
  rcases result with ⟨cause⟩ | found
  · cases cause <;> cases h
  · cases h
    rfl

theorem path_of_mem_reported
    (h : (aggregate options input stem tree).2.outcome = .ok report) {file : Output}
    (hfile : file ∈ report.files) :
    ∃ kind ∈ writtenKinds options.singleClient, file.path = kind.path stem := by
  obtain ⟨-, _, _, -, -, -, hfiles, -⟩ := aggregate_eq_ok h
  rw [hfiles] at hfile
  obtain ⟨kind, hkind, rfl⟩ := List.mem_map.mp hfile
  exact ⟨kind, hkind, TableSet.output_path report.tables stem kind⟩

theorem apart_reported (h : (aggregate options input stem tree).2.outcome = .ok report) :
    report.files.Pairwise fun a b => Apart a.path b.path := by
  obtain ⟨-, _, _, -, -, -, hfiles, -⟩ := aggregate_eq_ok h
  rw [hfiles]
  exact apart_outputs report.tables stem options.singleClient

/-- Aggregating leaves the files that it reports. -/
theorem has_reported (h : (aggregate options input stem tree).2.outcome = .ok report) :
    ∀ file ∈ report.files, (aggregate options input stem tree).1.Has file := by
  obtain ⟨-, _, _, -, -, -, -, hwritten⟩ := aggregate_eq_ok h
  have hok : (tree.writeAll report.files).2 = .ok () := by rw [hwritten]
  have hhas := FileTree.has_of_writeAll hok (apart_reported h)
  rwa [hwritten] at hhas

theorem aggregatePlan_files (h : (aggregate options input stem tree).2.outcome = .ok report) :
    Plan.files (aggregatePlan options input stem tree.read) = report.files := by
  obtain ⟨hrep, bytes, rows, hbytes, hrows, hcondense, hfiles, -⟩ := aggregate_eq_ok h
  have hcomes : options.Condenses input tree report.tables :=
    ⟨hrep, rows, measurementsAt_of_read hbytes hrows, hcondense⟩
  obtain ⟨rows, hplan⟩ := hcomes.plan stem
  unfold Plan.files
  rw [hplan, hfiles]
  rfl

/-- Where the input reads the same and the tables are there, aggregating changes nothing and ends as
it did. -/
theorem aggregate_of_has (h : (aggregate options input stem tree).2.outcome = .ok report)
    (hinput : other.read input = tree.read input) (hfiles : ∀ file ∈ report.files, other.Has file) :
    aggregate options input stem other = (other, (aggregate options input stem tree).2) := by
  obtain ⟨-, _, _, -, -, -, -, hwritten⟩ := aggregate_eq_ok h
  have hplanned := aggregatePlan_files h
  have hended : (aggregate options input stem tree).2 =
      Plan.conclude (aggregatePlan options input stem tree.read) (.ok ()) := by
    show Plan.conclude _ (tree.writeAll (Plan.files _)).2 = _
    rw [hplanned, hwritten]
  rw [hended, aggregate, aggregatePlan_congr options stem hinput]
  exact Plan.carryOut_of_has _ (by rwa [hplanned])

/-! ## Rendering -/

/-- Rendering again what rendering left changes nothing and ends as before, as long as the tables
read the same. -/
theorem render_again (hread : ∀ kind ∈ renderedKinds,
      (render labels input output tree).1.read (kind.path input) = tree.read (kind.path input)) :
    render labels input output (render labels input output tree).1 =
      render labels input output tree := by
  have hplan := renderPlan_congr labels output hread
  show Plan.carryOut (renderPlan labels input output (render labels input output tree).1.read) _ = _
  rw [hplan]
  exact Plan.carryOut_again _ tree (apart_renderPlan_files labels input output tree)

/-! ## After aggregating -/

theorem read_input_aggregate (h : (aggregate options input stem tree).2.outcome = .ok report)
    (hinput : ∀ path ∈ report.files.map Output.path, Apart input path) :
    (aggregate options input stem tree).1.read input = tree.read input := by
  obtain ⟨-, bytes, _, hbytes, -, -, -, hwritten⟩ := aggregate_eq_ok h
  have hread := tableBytes_eq_ok hbytes
  have hkept := FileTree.read_of_apart_writeAll hread fun file hfile =>
    hinput file.path (List.mem_map_of_mem hfile)
  rw [hwritten] at hkept
  exact hkept.trans hread.symm

/-- Rendering writes to none of the tables that were reported. -/
theorem has_reported_render (h : (aggregate options input stem tree).2.outcome = .ok report)
    (labels : Latex.RowLabels) (output : String) :
    ∀ file ∈ report.files,
      (render labels stem output (aggregate options input stem tree).1).1.Has file := by
  intro file hfile
  obtain ⟨kind, -, hpath⟩ := path_of_mem_reported h hfile
  refine (has_reported h file hfile).writeAll fun written hmem => ?_
  rw [hpath]
  exact kind.apart_rendered stem hmem

theorem read_input_render (labels : Latex.RowLabels) {bytes : List UInt8}
    (hread : tree.read input = .ok bytes)
    (hinput : ∀ path ∈ [suffixed output "_bw.tex", suffixed output "_rt.tex"], Apart input path) :
    (render labels stem output tree).1.read input = .ok bytes := by
  refine FileTree.read_of_apart_writeAll hread fun file hfile => ?_
  rcases path_of_mem_renderPlan_files hfile with hpath | hpath
  · rw [hpath]
    exact hinput _ (by simp)
  · rw [hpath]
    exact hinput _ (by simp)

/-- The tables that were reported are those that rendering reads, before and after it. -/
theorem render_reported_again (h : (aggregate options input stem tree).2.outcome = .ok report)
    (labels : Latex.RowLabels) (output : String) :
    let rendered := render labels stem output (aggregate options input stem tree).1
    render labels stem output rendered.1 = rendered := by
  intro rendered
  obtain ⟨-, _, _, -, -, -, hfiles, -⟩ := aggregate_eq_ok h
  refine render_again fun kind hkind => ?_
  have hfile : report.tables.output stem kind ∈ report.files := by
    rw [hfiles]
    exact List.mem_map_of_mem (mem_writtenKinds_of_mem_renderedKinds hkind _)
  rw [← report.tables.output_path stem kind, (has_reported_render h labels output _ hfile).read,
    (has_reported h _ hfile).read]

/-! ## Any number of times -/

/-- Steps that leave a tree as it is leave it so one after another. -/
theorem Session.run_of_unchanged {steps : List SessionStep}
    (h : ∀ todo ∈ steps, (Session.act tree todo).1 = tree) (quiet : Bool) :
    (Session.run ⟨tree, quiet⟩ steps).1.tree = tree := by
  induction steps generalizing quiet with
  | nil => rfl
  | cons todo rest ih =>
    have hfirst : (Session.step ⟨tree, quiet⟩ todo).1.tree = tree := h todo List.mem_cons_self
    have hrest := ih fun later hlater => h later (List.mem_cons_of_mem _ hlater)
    rw [Session.run]
    rcases hstep : Session.step ⟨tree, quiet⟩ todo with ⟨next, answer, log⟩
    rw [hstep] at hfirst
    obtain ⟨after, silenced⟩ := next
    obtain rfl : after = tree := hfirst
    exact hrest silenced

/-- A run that succeeds changes the tables that it reports and nothing else, and each of them is
what the run wrote, whatever was there.  When its input is none of them, the same run changes
nothing more and ends the same; when rendering does not write to the input either, that goes on
after rendering, for any further calls of both, and whether or not rendering succeeds. -/
theorem aggregate_again (labels : Latex.RowLabels) (output : String)
    (h : (aggregate options input stem tree).2.outcome = .ok report) :
    let first := aggregate options input stem tree
    let rendered := render labels stem output first.1
    report.files.map Output.path = options.suffixes.map (stem ++ ·) ∧
    tree.LeftBy report.files first.1 ∧
    ((∀ path ∈ report.files.map Output.path, Apart input path) →
      aggregate options input stem first.1 = first ∧
      ((∀ path ∈ [suffixed output "_bw.tex", suffixed output "_rt.tex"], Apart input path) →
        aggregate options input stem rendered.1 = (rendered.1, first.2) ∧
        render labels stem output rendered.1 = rendered ∧
        ∀ steps quiet, (∀ todo ∈ steps, todo = .aggregate options input stem ∨
            todo = .render labels stem output) →
          (Session.run ⟨rendered.1, quiet⟩ steps).1.tree = rendered.1)) := by
  intro first rendered
  obtain ⟨-, bytes, _, hbytes, -, -, hfiles, hwritten⟩ := aggregate_eq_ok h
  have hread := tableBytes_eq_ok hbytes
  refine ⟨?_, ?_, fun hinput => ⟨?_, fun hrendered => ?_⟩⟩
  · rw [hfiles]
    exact options.outputs_path stem report.tables
  · have hok : (tree.writeAll report.files).2 = .ok () := by rw [hwritten]
    have hleft := FileTree.leftBy_writeAll hok (apart_reported h)
    rwa [hwritten] at hleft
  · exact aggregate_of_has h (read_input_aggregate h hinput) (has_reported h)
  -- After rendering, input and tables read as before it.
  have hfirst : first.1.read input = .ok bytes := (read_input_aggregate h hinput).trans hread
  have hlast : rendered.1.read input = .ok bytes := read_input_render labels hfirst hrendered
  have hagain : aggregate options input stem rendered.1 = (rendered.1, first.2) :=
    aggregate_of_has h (hlast.trans hread.symm) (has_reported_render h labels output)
  have hrenderAgain : render labels stem output rendered.1 = rendered :=
    render_reported_again h labels output
  refine ⟨hagain, hrenderAgain, fun steps quiet hsteps => ?_⟩
  refine Session.run_of_unchanged (fun todo htodo => ?_) quiet
  rcases hsteps todo htodo with rfl | rfl
  · exact congrArg Prod.fst hagain
  · exact congrArg Prod.fst hrenderAgain

theorem aggregate_again_mixed :
    let first := aggregate { singleClient := true } "raw.csv" "means" mixedTree
    let rendered := render {} "means" "paper" first.1
    aggregate { singleClient := true } "raw.csv" "means" first.1 = first ∧
      (Session.run ⟨rendered.1, false⟩ [.render {} "means" "paper",
        .aggregate { singleClient := true } "raw.csv" "means",
        .render {} "means" "paper"]).1.tree = rendered.1 := by
  obtain ⟨report, h, -⟩ := aggregate_mixedTree
  obtain ⟨hpaths, -, hagain⟩ := aggregate_again {} "paper" h
  have hinput : ∀ path ∈ report.files.map Output.path, Apart "raw.csv" path := by
    rw [hpaths]
    decide +kernel
  obtain ⟨hsame, hrendered⟩ := hagain hinput
  obtain ⟨-, -, hsteps⟩ := hrendered (by decide +kernel)
  exact ⟨hsame, hsteps _ false (by simp)⟩

end BenchTables
