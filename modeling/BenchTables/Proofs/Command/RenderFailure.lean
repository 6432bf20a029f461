import BenchTables.Proofs.Command.Failure
import BenchTables.Proofs.Command.Render

/-!
# Rendering that fails

Rendering reads its four tables in order and makes both LaTeX tables before it writes the first of
them.  So a table that cannot be read, or a round-trip table that cannot be made, changes nothing;
what is left after that are the two files, and the second is only opened once the first is written
(`render_failure`).
-/

namespace BenchTables

open Files

/-- The rows of the tables that rendering reads. -/
structure CondensedRows where
  bandwidth : Variant → List BandwidthRow
  multiClient : Variant → List LatencyRow

/-- A tree has these rows in the tables named by `input`. -/
structure CondensedRows.ReadFrom (rows : CondensedRows) (input : String) (tree : FileTree) :
    Prop where
  bandwidth : ∀ v, Session.condensedAt .bandwidth tree (TableKind.path (.bandwidth v) input) =
    .ok (rows.bandwidth v)
  multiClient : ∀ v, Session.condensedAt .latency tree (TableKind.path (.multiClient v) input) =
    .ok (rows.multiClient v)

/-- Why the table of a kind cannot be read, if it cannot. -/
def TableKind.fault? (kind : TableKind) (input : String) (tree : FileTree) : Option TableError :=
  match kind with
  | .bandwidth _ => refusal (Session.condensedAt .bandwidth tree (kind.path input))
  | .multiClient _ => refusal (Session.condensedAt .latency tree (kind.path input))
  | .singleClient _ => refusal (Session.condensedAt .latency tree (kind.path input))

/-- What rendering is refused for before it writes anything: the first of its tables that cannot be
read or, where all of them are read, what the round-trip table is refused for. -/
inductive RefusesTables (labels : Latex.RowLabels) (input : String) (tree : FileTree) :
    RenderError → Prop
  | unreadable {error : TableError}
      (hfirst : renderedKinds.findSome? (fun kind => kind.fault? input tree) = some error) :
      RefusesTables labels input tree (.table error)
  | roundTrip {rows : CondensedRows} {error : Latex.RoundTripError}
      (hrows : rows.ReadFrom input tree)
      (herror : Latex.roundTripTable labels (rows.multiClient .noAuth) (rows.multiClient .auth) =
        .error error) :
      RefusesTables labels input tree (.roundTrip error)

/-- The two LaTeX tables of the rows that a tree has. -/
def MakesTables (labels : Latex.RowLabels) (input : String) (tree : FileTree)
    (bandwidth roundTrip : String) : Prop :=
  ∃ rows : CondensedRows, rows.ReadFrom input tree ∧
    Latex.bandwidthTable labels (rows.bandwidth .noAuth) (rows.bandwidth .auth) = bandwidth ∧
    Latex.roundTripTable labels (rows.multiClient .noAuth) (rows.multiClient .auth) = .ok roundTrip

variable {labels : Latex.RowLabels} {input stem : String} {tree : FileTree}

/-! ## Before the first file -/

theorem readCondensed_tree {n : ℕ} (schema : Schema n) (path : String) (tree : FileTree) :
    (readCondensed schema path tree.read).outcome =
      (Session.condensedAt schema tree path).mapError .table := rfl

theorem CondensedRows.ReadFrom.plan {rows : CondensedRows} (h : rows.ReadFrom input tree)
    (labels : Latex.RowLabels) (stem : String) :
    (renderPlan labels input stem tree.read).outcome = (do
      let roundTrip ←
        (Latex.roundTripTable labels (rows.multiClient .noAuth) (rows.multiClient .auth)).mapError
          RenderError.roundTrip
      return renderDelivery stem
        (Latex.bandwidthTable labels (rows.bandwidth .noAuth) (rows.bandwidth .auth))
          roundTrip) := by
  rw [renderPlan_outcome]
  simp only [readCondensed_tree, h.bandwidth, h.multiClient]
  rfl

/-- A table that cannot be read ends rendering, whatever the tables after it. -/
theorem renderPlan_of_unreadable {error : TableError}
    (h : renderedKinds.findSome? (fun kind => kind.fault? input tree) = some error) :
    (renderPlan labels input stem tree.read).outcome = .error (.table error) := by
  rw [renderPlan_outcome]
  simp only [readCondensed_tree]
  simp only [renderedKinds, Variant.all, List.map_cons, List.map_nil, List.cons_append,
    List.nil_append, List.findSome?_cons, List.findSome?_nil, TableKind.fault?] at h
  -- The tables are looked at in the order in which they are read.
  cases hfirst : Session.condensedAt .bandwidth tree
      (TableKind.path (.bandwidth .noAuth) input) with
  | error e => rw [hfirst] at h; cases h; rfl
  | ok bandwidthNoAuth =>
  cases hsecond : Session.condensedAt .bandwidth tree (TableKind.path (.bandwidth .auth) input) with
  | error e => rw [hfirst, hsecond] at h; cases h; rfl
  | ok bandwidthAuth =>
  cases hthird : Session.condensedAt .latency tree
      (TableKind.path (.multiClient .noAuth) input) with
  | error e => rw [hfirst, hsecond, hthird] at h; cases h; rfl
  | ok multiNoAuth =>
  cases hfourth : Session.condensedAt .latency tree (TableKind.path (.multiClient .auth) input) with
  | error e => rw [hfirst, hsecond, hthird, hfourth] at h; cases h; rfl
  | ok multiAuth => rw [hfirst, hsecond, hthird, hfourth] at h; cases h

theorem RefusesTables.plan {error : RenderError} (h : RefusesTables labels input tree error)
    (stem : String) : (renderPlan labels input stem tree.read).outcome = .error error := by
  cases h with
  | unreadable hfirst => exact renderPlan_of_unreadable hfirst
  | roundTrip hrows herror =>
    rw [hrows.plan labels stem, herror]
    rfl

theorem MakesTables.plan {bandwidth roundTrip : String}
    (h : MakesTables labels input tree bandwidth roundTrip) (stem : String) :
    (renderPlan labels input stem tree.read).outcome =
      .ok (renderDelivery stem bandwidth roundTrip) := by
  obtain ⟨rows, hrows, rfl, hroundTrip⟩ := h
  rw [hrows.plan labels stem, hroundTrip]
  rfl

theorem mem_renderedKinds_bandwidth (v : Variant) : TableKind.bandwidth v ∈ renderedKinds := by
  cases v <;> decide

theorem mem_renderedKinds_multiClient (v : Variant) : TableKind.multiClient v ∈ renderedKinds := by
  cases v <;> decide

/-- Where no table is at fault, all of them are read. -/
theorem exists_readFrom (h : ∀ kind ∈ renderedKinds, kind.fault? input tree = none) :
    ∃ rows : CondensedRows, rows.ReadFrom input tree := by
  have hbandwidth : ∀ v, ∃ rows, Session.condensedAt .bandwidth tree
      (TableKind.path (.bandwidth v) input) = .ok rows := by
    intro v
    exact refusal_eq_none_iff.mp (h _ (mem_renderedKinds_bandwidth v))
  have hmultiClient : ∀ v, ∃ rows, Session.condensedAt .latency tree
      (TableKind.path (.multiClient v) input) = .ok rows := by
    intro v
    exact refusal_eq_none_iff.mp (h _ (mem_renderedKinds_multiClient v))
  choose bandwidth hbandwidth using hbandwidth
  choose multiClient hmultiClient using hmultiClient
  exact ⟨⟨bandwidth, multiClient⟩, hbandwidth, hmultiClient⟩

/-- Rendering is refused for its tables, or comes to both LaTeX tables. -/
theorem refusesTables_or_makesTables (labels : Latex.RowLabels) (input : String)
    (tree : FileTree) :
    (∃ error, RefusesTables labels input tree error) ∨
      ∃ bandwidth roundTrip, MakesTables labels input tree bandwidth roundTrip := by
  cases hfirst : renderedKinds.findSome? (fun kind => kind.fault? input tree) with
  | some error => exact Or.inl ⟨_, .unreadable hfirst⟩
  | none =>
    obtain ⟨rows, hrows⟩ := exists_readFrom (List.findSome?_eq_none_iff.mp hfirst)
    cases hmade : Latex.roundTripTable labels (rows.multiClient .noAuth)
        (rows.multiClient .auth) with
    | error error => exact Or.inl ⟨_, .roundTrip hrows hmade⟩
    | ok roundTrip => exact Or.inr ⟨_, roundTrip, rows, hrows, rfl, hmade⟩

/-- Rendering that is refused for its tables has no files to write. -/
theorem RefusesTables.render_eq {error : RenderError} (h : RefusesTables labels input tree error)
    (stem : String) :
    (render labels input stem tree).2.outcome = .error error ∧
      (render labels input stem tree).1 = tree := by
  unfold render
  rw [Plan.carryOut_of_error _ tree error (h.plan stem)]
  exact ⟨rfl, rfl⟩

/-! ## At a file -/

/-- The file of the bandwidth table. -/
def bandwidthFile (stem bandwidth : String) : Output :=
  ⟨suffixed stem "_bw.tex", Text.encode bandwidth⟩

/-- The file of the round-trip table. -/
def roundTripFile (stem roundTrip : String) : Output :=
  ⟨suffixed stem "_rt.tex", Text.encode roundTrip⟩

/-- How rendering ends: what comes of it, and which outputs it leaves. -/
inductive RenderEnds (labels : Latex.RowLabels) (input stem : String) (tree : FileTree) :
    Except RenderError Rendered → List Output → Prop
  | refused {error : RenderError} (htables : RefusesTables labels input tree error) :
      RenderEnds labels input stem tree (.error error) []
  | bandwidthRefused {bandwidth roundTrip : String} {failure : WriteFailure}
      (hmade : MakesTables labels input tree bandwidth roundTrip)
      (hrefused : (tree.write (suffixed stem "_bw.tex") (Text.encode bandwidth)).2 =
        .error failure) :
      RenderEnds labels input stem tree
        (.error (.cannotWrite (suffixed stem "_bw.tex") failure.cause)) []
  | roundTripRefused {bandwidth roundTrip : String} {after : FileTree} {failure : WriteFailure}
      (hmade : MakesTables labels input tree bandwidth roundTrip)
      (hwritten : tree.write (suffixed stem "_bw.tex") (Text.encode bandwidth) = (after, .ok ()))
      (hrefused : (after.write (suffixed stem "_rt.tex") (Text.encode roundTrip)).2 =
        .error failure) :
      RenderEnds labels input stem tree
        (.error (.cannotWrite (suffixed stem "_rt.tex") failure.cause))
        [bandwidthFile stem bandwidth]
  | rendered {bandwidth roundTrip : String} {after : FileTree}
      (hmade : MakesTables labels input tree bandwidth roundTrip)
      (hwritten : tree.write (suffixed stem "_bw.tex") (Text.encode bandwidth) = (after, .ok ()))
      (hlast : (after.write (suffixed stem "_rt.tex") (Text.encode roundTrip)).2 = .ok ()) :
      RenderEnds labels input stem tree
        (.ok ⟨[bandwidthFile stem bandwidth, roundTripFile stem roundTrip]⟩)
        [bandwidthFile stem bandwidth, roundTripFile stem roundTrip]

theorem writeAll_cons_of_written {after : FileTree} (output : Output) (rest : List Output)
    (h : tree.write output.path output.content = (after, .ok ())) :
    tree.writeAll (output :: rest) = after.writeAll rest := by
  rw [FileTree.writeAll, h]

namespace MakesTables

variable {bandwidth roundTrip : String} {failure : WriteFailure}

theorem render_of_bandwidth_refused (h : MakesTables labels input tree bandwidth roundTrip)
    (hrefused : (tree.write (bandwidthFile stem bandwidth).path
      (bandwidthFile stem bandwidth).content).2 = .error failure) :
    (render labels input stem tree).2.outcome =
        .error (.cannotWrite (bandwidthFile stem bandwidth).path failure.cause) ∧
      (render labels input stem tree).1 = tree := by
  -- No file is before this one.
  have hfiles : (renderDelivery stem bandwidth roundTrip).files =
      [] ++ bandwidthFile stem bandwidth :: [roundTripFile stem roundTrip] := rfl
  have hnone : (tree.writeAll []).2 = .ok () := rfl
  exact carryOut_of_refused (h.plan stem) hfiles hnone hrefused

theorem render_of_roundTrip_refused (h : MakesTables labels input tree bandwidth roundTrip)
    (hwritten : (tree.writeAll [bandwidthFile stem bandwidth]).2 = .ok ())
    (hrefused : ((tree.writeAll [bandwidthFile stem bandwidth]).1.write
      (roundTripFile stem roundTrip).path (roundTripFile stem roundTrip).content).2 =
        .error failure) :
    (render labels input stem tree).2.outcome =
        .error (.cannotWrite (roundTripFile stem roundTrip).path failure.cause) ∧
      tree.LeftBy [bandwidthFile stem bandwidth] (render labels input stem tree).1 := by
  have hfiles : (renderDelivery stem bandwidth roundTrip).files =
      [bandwidthFile stem bandwidth] ++ roundTripFile stem roundTrip :: [] := rfl
  obtain ⟨houtcome, hafter⟩ := carryOut_of_refused (h.plan stem) hfiles hwritten hrefused
  refine ⟨houtcome, ?_⟩
  unfold render
  rw [hafter]
  exact FileTree.leftBy_writeAll hwritten (List.pairwise_singleton _ _)

theorem render_of_written (h : MakesTables labels input tree bandwidth roundTrip)
    (hwritten : (tree.writeAll (renderedFiles stem bandwidth roundTrip)).2 = .ok ()) :
    (render labels input stem tree).2.outcome = .ok ⟨renderedFiles stem bandwidth roundTrip⟩ ∧
      tree.LeftBy (renderedFiles stem bandwidth roundTrip) (render labels input stem tree).1 := by
  obtain ⟨houtcome, hafter⟩ := carryOut_of_written (h.plan stem) hwritten
  refine ⟨houtcome, ?_⟩
  unfold render
  rw [hafter]
  exact FileTree.leftBy_writeAll hwritten (apart_renderedFiles stem bandwidth roundTrip)

end MakesTables

theorem leftBy_nil_of_eq {after : FileTree} (h : after = tree) : tree.LeftBy [] after where
  written _ houtput := by cases houtput
  others _ _ := by rw [h]

/-- However rendering ends, it comes to this, and it leaves its outputs and nothing else changed. -/
theorem RenderEnds.render_eq {outcome : Except RenderError Rendered} {outputs : List Output}
    (h : RenderEnds labels input stem tree outcome outputs) :
    (render labels input stem tree).2.outcome = outcome ∧
      tree.LeftBy outputs (render labels input stem tree).1 ∧
      (outputs = [] → (render labels input stem tree).1 = tree) := by
  cases h with
  | refused htables =>
    obtain ⟨houtcome, hsame⟩ := htables.render_eq stem
    exact ⟨houtcome, leftBy_nil_of_eq hsame, fun _ => hsame⟩
  | bandwidthRefused hmade hrefused =>
    obtain ⟨houtcome, hsame⟩ := hmade.render_of_bandwidth_refused hrefused
    exact ⟨houtcome, leftBy_nil_of_eq hsame, fun _ => hsame⟩
  | @roundTripRefused bandwidth roundTrip after failure hmade hwritten hrefused =>
    have hfirst : tree.writeAll [bandwidthFile stem bandwidth] = (after, .ok ()) :=
      writeAll_cons_of_written (bandwidthFile stem bandwidth) [] hwritten
    obtain ⟨houtcome, hleft⟩ := hmade.render_of_roundTrip_refused (congrArg Prod.snd hfirst)
      (by rw [hfirst]; exact hrefused)
    exact ⟨houtcome, hleft, fun hnone => by cases hnone⟩
  | @rendered bandwidth roundTrip after hmade hwritten hlast =>
    have hall : tree.writeAll (renderedFiles stem bandwidth roundTrip) =
        after.writeAll [roundTripFile stem roundTrip] :=
      writeAll_cons_of_written (bandwidthFile stem bandwidth) _ hwritten
    have hsecond := writeAll_cons_of_written (roundTripFile stem roundTrip) [] (Prod.ext rfl hlast)
    have hok : (tree.writeAll (renderedFiles stem bandwidth roundTrip)).2 = .ok () := by
      rw [hall, hsecond]
      rfl
    obtain ⟨houtcome, hleft⟩ := hmade.render_of_written hok
    exact ⟨houtcome, hleft, fun hnone => by cases hnone⟩

theorem exists_renderEnds (labels : Latex.RowLabels) (input stem : String) (tree : FileTree) :
    ∃ outcome outputs, RenderEnds labels input stem tree outcome outputs := by
  rcases refusesTables_or_makesTables labels input tree with
    ⟨error, htables⟩ | ⟨bandwidth, roundTrip, hmade⟩
  · exact ⟨_, _, .refused htables⟩
  rcases hfirst : tree.write (suffixed stem "_bw.tex") (Text.encode bandwidth) with
    ⟨after, failure | _⟩
  · exact ⟨_, _, .bandwidthRefused hmade (congrArg Prod.snd hfirst)⟩
  cases hlast : (after.write (suffixed stem "_rt.tex") (Text.encode roundTrip)).2 with
  | error failure => exact ⟨_, _, .roundTripRefused hmade hfirst hlast⟩
  | ok _ => exact ⟨_, _, .rendered hmade hfirst hlast⟩

/-- Rendering reads four tables in order and then ends in one of four ways.  It is refused for the
first table that cannot be read, or for what the round-trip table is refused for, or it cannot write
its first file, and then the tree is as it was; it cannot write its second file, and then only the
first has changed; or it leaves both files, with the tables of the rows that it has read. -/
theorem render_failure (labels : Latex.RowLabels) (input stem : String) (tree : FileTree) :
    renderedKinds.map (·.path input) =
      ["_BW_NoAuth.csv", "_BW_Auth.csv", "_RT_Multi_NoAuth.csv", "_RT_Multi_Auth.csv"].map
        (input ++ ·) ∧
    (∃ outcome outputs, RenderEnds labels input stem tree outcome outputs) ∧
    ∀ outcome outputs, RenderEnds labels input stem tree outcome outputs →
      (render labels input stem tree).2.outcome = outcome ∧
        tree.LeftBy outputs (render labels input stem tree).1 ∧
        (outputs = [] → (render labels input stem tree).1 = tree) := by
  refine ⟨?_, exists_renderEnds labels input stem tree, fun outcome outputs h => h.render_eq⟩
  have hsuffixes : renderedKinds.map TableKind.suffix =
      ["_BW_NoAuth.csv", "_BW_Auth.csv", "_RT_Multi_NoAuth.csv", "_RT_Multi_Auth.csv"] := by
    decide
  rw [← hsuffixes, List.map_map]
  rfl

/-- A directory with four tables that have no rows, and another directory where the second LaTeX
table would be. -/
def emptyTablesTree : FileTree :=
  let tables : TableSet := ⟨⟨[], [], []⟩, ⟨[], [], []⟩⟩
  let files := renderedKinds.map (tables.output "means")
  (FileTree.fresh.writeAll files).1.put ["out_rt.tex"] .directory

set_option maxRecDepth 100000 in
theorem readFrom_emptyTablesTree :
    CondensedRows.ReadFrom ⟨fun _ => [], fun _ => []⟩ "means" emptyTablesTree where
  bandwidth v := by cases v <;> decide +kernel
  multiClient v := by cases v <;> decide +kernel

/-- Rendering where no table is, and rendering that is blocked at its second file. -/
theorem render_failure_emptyTablesTree :
    ((render {} "means" "out" FileTree.fresh).2.outcome =
        .error (.table (.cannotOpen "means_BW_NoAuth.csv" .notFound)) ∧
      (render {} "means" "out" FileTree.fresh).1 = FileTree.fresh) ∧
    ((render {} "means" "out" emptyTablesTree).2.outcome =
        .error (.cannotWrite "out_rt.tex" .isDirectory) ∧
      emptyTablesTree.LeftBy [bandwidthFile "out" (Latex.bandwidthTable {} [] [])]
        (render {} "means" "out" emptyTablesTree).1) := by
  constructor
  · have hends : RenderEnds {} "means" "out" FileTree.fresh
        (.error (.table (.cannotOpen "means_BW_NoAuth.csv" .notFound))) [] :=
      .refused (.unreadable (by decide +kernel))
    obtain ⟨houtcome, -, hsame⟩ := (render_failure {} "means" "out" FileTree.fresh).2.2 _ _ hends
    exact ⟨houtcome, hsame rfl⟩
  · have hmade : Latex.roundTripTable {} [] [] =
        .ok ((Latex.roundTripTable {} [] []).toOption.getD "") := by decide +kernel
    have hwritten : (emptyTablesTree.write (suffixed "out" "_bw.tex")
        (Text.encode (Latex.bandwidthTable {} [] []))).2 = .ok () := by decide +kernel
    have hrefused : ((emptyTablesTree.write (suffixed "out" "_bw.tex")
        (Text.encode (Latex.bandwidthTable {} [] []))).1.write (suffixed "out" "_rt.tex")
          (Text.encode ((Latex.roundTripTable {} [] []).toOption.getD ""))).2 =
        .error (.creating .isDirectory) := by decide +kernel
    have hends : RenderEnds {} "means" "out" emptyTablesTree
        (.error (.cannotWrite "out_rt.tex" .isDirectory))
        [bandwidthFile "out" (Latex.bandwidthTable {} [] [])] :=
      .roundTripRefused ⟨_, readFrom_emptyTablesTree, rfl, hmade⟩ (Prod.ext rfl hwritten) hrefused
    obtain ⟨houtcome, hleft, -⟩ := (render_failure {} "means" "out" emptyTablesTree).2.2 _ _ hends
    exact ⟨houtcome, hleft⟩

end BenchTables
