import BenchTables.Proofs.Latex.Gaps
import Mathlib.Data.List.Perm.Subperm

/-!
# Shared times and the rows they are taken from

The notification times of a block are summed over all rows of its size in both tables, while its
lines show the first row of either table at each rate of the authenticated rows.  So the rows shown
are among those summed, and they are all of them only if no row of the size is a repetition or
stands at a rate of its own: `shared_times`.
-/

namespace BenchTables.Latex

/-- The rows of both tables that have a size. -/
def rowsOfSize (noAuth auth : List LatencyRow) (dbSize : UInt64) : List LatencyRow :=
  (noAuth ++ auth).filter fun row => row.dbSize = dbSize

/-- The rows whose retrieval times the lines of a block show. -/
def RoundTripBlock.shownRows (block : RoundTripBlock) : List LatencyRow :=
  block.lines.map (·.row)

/-- The share of a phase in rows: its sum, divided by the number of rows of the design. -/
def share (rows : List LatencyRow) (phase : Phase) : Float :=
  sum (rows.map (LatencyRow.phase · phase)) / notifyDivisor

/-- The rows of a size have rates of their own in either table, and those without authentication
have rates of the authenticated ones. -/
structure OneRowEach (noAuth auth : List LatencyRow) (dbSize : UInt64) : Prop where
  distinct : ∀ variant, (((rowsOf noAuth auth variant).filter fun row =>
    row.dbSize = dbSize).map (·.rate)).Nodup
  rates : ∀ row ∈ noAuth, row.dbSize = dbSize → ∃ other ∈ auth, other.rate = row.rate

/-- The shared times of a block are those of all rows of its size, whatever rows its lines show. -/
structure IsShared (noAuth auth : List LatencyRow) (dbSize : UInt64) (block : RoundTripBlock) :
    Prop where
  times : block.shared =
    { sendNotify := share (rowsOfSize noAuth auth dbSize) .sendNotify
      recvGetNotified := share (rowsOfSize noAuth auth dbSize) .recvGetNotified
      recvNotify := share (rowsOfSize noAuth auth dbSize) .recvNotify
      sendGetNotified := share (rowsOfSize noAuth auth dbSize) .sendGetNotified }
  subperm : block.shownRows.Subperm (rowsOfSize noAuth auth dbSize)
  perm_iff : block.shownRows.Perm (rowsOfSize noAuth auth dbSize) ↔ OneRowEach noAuth auth dbSize

variable {noAuth auth rows shown : List LatencyRow} {rates : List UInt64} {dbSize : UInt64}
  {block : RoundTripBlock} {lines : List RoundTripLine}

/-! ## The rows of one table -/

/-- The first row of a size at each of some rates. -/
def AreFirst (rows : List LatencyRow) (dbSize : UInt64) (rates : List UInt64)
    (shown : List LatencyRow) : Prop :=
  List.Forall₂ (IsFirstAt rows dbSize) rates shown

theorem AreFirst.map_rate (h : AreFirst rows dbSize rates shown) : shown.map (·.rate) = rates := by
  induction h with
  | nil => rfl
  | cons hrow _ ih => rw [List.map_cons, ih, hrow.1.2]

theorem AreFirst.subperm (h : AreFirst rows dbSize rates shown) (hrates : rates.Nodup) :
    shown.Subperm (rows.filter fun row => row.dbSize = dbSize) := by
  -- Rows at different rates are different rows.
  have hnodup : shown.Nodup := List.Nodup.of_map (·.rate) (h.map_rate ▸ hrates)
  refine hnodup.subperm fun row hrow => ?_
  obtain ⟨rate, -, ⟨hsize, -⟩, before, after, hsplit, -⟩ := exists_left_of_forall₂ h hrow
  refine List.mem_filter.mpr ⟨?_, decide_eq_true hsize⟩
  rw [hsplit]
  exact List.mem_append_right _ List.mem_cons_self

/-- The first rows are all rows if none is repeated and none has another rate. -/
theorem AreFirst.perm_iff (h : AreFirst rows dbSize rates shown) (hrates : rates.Nodup) :
    shown.Perm (rows.filter fun row => row.dbSize = dbSize) ↔
      ((rows.filter fun row => row.dbSize = dbSize).map (·.rate)).Nodup ∧
        ∀ row ∈ rows, row.dbSize = dbSize → row.rate ∈ rates := by
  constructor
  · intro hperm
    have hmap := hperm.map (·.rate)
    rw [h.map_rate] at hmap
    refine ⟨hmap.nodup_iff.mp hrates, fun row hrow hsize => hmap.mem_iff.mpr ?_⟩
    exact List.mem_map_of_mem (List.mem_filter.mpr ⟨hrow, decide_eq_true hsize⟩)
  · rintro ⟨hnodup, hsub⟩
    -- Rates that are not repeated are no more than the rates that are shown.
    have hle : ((rows.filter fun row => row.dbSize = dbSize).map (·.rate)).length ≤
        rates.length := by
      refine (hnodup.subperm fun rate hrate => ?_).length_le
      obtain ⟨row, hrow, rfl⟩ := List.mem_map.mp hrate
      obtain ⟨hmem, hsize⟩ := List.mem_filter.mp hrow
      exact hsub row hmem (of_decide_eq_true hsize)
    refine (h.subperm hrates).perm_of_length_le ?_
    rw [List.length_map] at hle
    exact hle.trans_eq h.length_eq

/-! ## The lines of a block -/

/-- The lines of a block show the first rows of both tables. -/
theorem exists_areFirst (h : List.Forall₂ (fun (place : UInt64 × Variant) line =>
      ∃ row, line = RoundTripLine.mk place.2 place.1 row ∧
        IsFirstAt (rowsOf noAuth auth place.2) dbSize place.1 row) (places rates) lines) :
    ∃ shown shown', AreFirst noAuth dbSize rates shown ∧ AreFirst auth dbSize rates shown' ∧
      (lines.map (·.row)).Perm (shown ++ shown') := by
  induction rates generalizing lines with
  | nil =>
    cases h
    exact ⟨[], [], .nil, .nil, .nil⟩
  | cons rate rest ih =>
    -- A rate has two lines, one of either table.
    obtain _ | ⟨⟨row, rfl, hrow⟩, _ | ⟨⟨row', rfl, hrow'⟩, hrest⟩⟩ := h
    obtain ⟨shown, shown', hshown, hshown', hperm⟩ := ih hrest
    refine ⟨row :: shown, row' :: shown', .cons hrow hshown, .cons hrow' hshown', ?_⟩
    exact ((hperm.cons row').trans List.perm_middle.symm).cons row

theorem isShared_of_blockAt
    (h : blockAt noAuth auth (distinctAscending (auth.map (·.rate))) dbSize = .ok block) :
    IsShared noAuth auth dbSize block := by
  obtain ⟨-, htimes, hlines⟩ := blockAt_eq_ok h
  obtain ⟨shown, shown', hshown, hshown', hperm⟩ := exists_areFirst hlines
  have hrates : (distinctAscending (auth.map (·.rate))).Nodup :=
    (pairwise_distinctAscending _).imp fun hlt => UInt64.ne_of_lt hlt
  have hsub := hshown.subperm hrates
  have hsub' := hshown'.subperm hrates
  have hsplit : rowsOfSize noAuth auth dbSize =
      (noAuth.filter fun row => row.dbSize = dbSize) ++
        auth.filter fun row => row.dbSize = dbSize := List.filter_append ..
  -- All rows are shown when those of either table are.
  have hboth : (shown ++ shown').Perm (rowsOfSize noAuth auth dbSize) ↔
      shown.Perm (noAuth.filter fun row => row.dbSize = dbSize) ∧
        shown'.Perm (auth.filter fun row => row.dbSize = dbSize) := by
    rw [hsplit]
    constructor
    · intro hall
      have hlength := hall.length_eq
      rw [List.length_append, List.length_append] at hlength
      have hle := hsub.length_le
      have hle' := hsub'.length_le
      exact ⟨hsub.perm_of_length_le (by omega), hsub'.perm_of_length_le (by omega)⟩
    · rintro ⟨hall, hall'⟩
      exact hall.append hall'
  refine ⟨htimes, hperm.subperm.trans (hsplit ▸ hsub.append hsub'), ?_⟩
  rw [RoundTripBlock.shownRows, hperm.congr_left, hboth, hshown.perm_iff hrates,
    hshown'.perm_iff hrates]
  constructor
  · rintro ⟨⟨hdistinct, hknown⟩, hdistinct', -⟩
    refine ⟨fun variant => ?_, fun row hrow hsize => mem_rates.mp (hknown row hrow hsize)⟩
    cases variant with
    | noAuth => exact hdistinct
    | auth => exact hdistinct'
  · rintro ⟨hdistinct, hknown⟩
    exact ⟨⟨hdistinct .noAuth, fun row hrow hsize => mem_rates.mpr (hknown row hrow hsize)⟩,
      hdistinct .auth, fun row hrow _ => mem_rates.mpr ⟨row, hrow, rfl⟩⟩

/-! ## The table -/

/-- The text of a table that can be made is that of its blocks, one for each size of the
authenticated rows, and the shared times of each are those of all rows of its size. -/
theorem shared_times {labels : RowLabels} {text : String}
    (h : roundTripTable labels noAuth auth = .ok text) :
    ∃ sizes made, sizes.Pairwise (· < ·) ∧
      (∀ size, size ∈ sizes ↔ ∃ row ∈ auth, row.dbSize = size) ∧
      blocks noAuth auth = .ok made ∧
      text = String.join ((headLines ++
        ruledLines (made.map (RoundTripBlock.textLines labels))).map (· ++ "\n")) ++ closeTable ∧
      List.Forall₂ (IsShared noAuth auth) sizes made := by
  obtain ⟨made, hmade, htext⟩ := bind_eq_ok_iff.mp h
  cases htext
  have hblocks := forall₂_of_mapM_eq_ok hmade
  have hlines : ∀ block ∈ made, block.lines ≠ [] := by
    intro block hblock
    obtain ⟨size, hsize, hat⟩ := exists_left_of_forall₂ hblocks hblock
    obtain ⟨row, hrow, -⟩ := mem_sizes.mp hsize
    exact lines_ne_nil_of_blockAt hat (List.ne_nil_of_mem (mem_rates.mpr ⟨row, hrow, rfl⟩))
  refine ⟨_, made, pairwise_distinctAscending _, fun size => mem_sizes, hmade, ?_,
    hblocks.imp fun size block hat => isShared_of_blockAt hat⟩
  rw [roundTripHead_eq, join_text_eq labels hlines, List.map_append, String.join_append]

/-- A row without authentication, and two with it for the same size and rate. -/
def onceMeasured : List LatencyRow :=
  [⟨"a", 1024, 1, Vector.replicate 7 1.0⟩]

def twiceMeasured : List LatencyRow :=
  [⟨"b", 1024, 1, Vector.replicate 7 1.0⟩, ⟨"c", 1024, 1, Vector.replicate 7 4.0⟩]

theorem blocks_twiceMeasured : blocks onceMeasured twiceMeasured =
    .ok [⟨"$2^\x7b10\x7d$", .at onceMeasured twiceMeasured 1024,
      [⟨.noAuth, 1, ⟨"a", 1024, 1, Vector.replicate 7 1.0⟩⟩,
        ⟨.auth, 1, ⟨"b", 1024, 1, Vector.replicate 7 1.0⟩⟩]⟩] := by
  have hsizes : distinctAscending (twiceMeasured.map (·.dbSize)) = [1024] :=
    List.mergeSort_of_pairwise (by decide)
  have hrates : distinctAscending (twiceMeasured.map (·.rate)) = [1] :=
    List.mergeSort_of_pairwise (by decide)
  unfold blocks
  rw [hsizes, hrates]
  decide +kernel

theorem roundTripTable_twiceMeasured :
    ∃ text, roundTripTable {} onceMeasured twiceMeasured = .ok text :=
  (exists_roundTripTable_iff {}).mpr ⟨_, blocks_twiceMeasured⟩

theorem shared_times_twiceMeasured :
    ∃ text, roundTripTable {} onceMeasured twiceMeasured = .ok text ∧
      ∃ sizes made, blocks onceMeasured twiceMeasured = .ok made ∧ 1024 ∈ sizes ∧
        List.Forall₂ (IsShared onceMeasured twiceMeasured) sizes made := by
  obtain ⟨text, htext⟩ := roundTripTable_twiceMeasured
  obtain ⟨sizes, made, -, hsizes, hmade, -, hshared⟩ := shared_times htext
  exact ⟨text, htext, sizes, made, hmade, (hsizes 1024).mpr (by decide +kernel), hshared⟩

/-- The second row of a place is in the shared times of the block, but not on its lines. -/
theorem unshown_row_shared :
    (∃ text, roundTripTable {} onceMeasured twiceMeasured = .ok text) ∧
      ∃ block, blocks onceMeasured twiceMeasured = .ok [block] ∧
        block.shared.sendNotify = share (rowsOfSize onceMeasured twiceMeasured 1024) .sendNotify ∧
        block.shared.sendNotify ≠ share block.shownRows .sendNotify ∧
        ¬block.shownRows.Perm (rowsOfSize onceMeasured twiceMeasured 1024) := by
  refine ⟨roundTripTable_twiceMeasured, _, blocks_twiceMeasured, ?_, ?_, ?_⟩
  · decide +kernel
  · decide +kernel
  · intro hperm
    exact absurd hperm.length_eq (by decide +kernel)

end BenchTables.Latex
