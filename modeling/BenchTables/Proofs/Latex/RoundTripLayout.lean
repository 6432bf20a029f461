import BenchTables.Latex.RoundTrip
import BenchTables.Proofs.Latex.Grid
import BenchTables.Proofs.Latex.Markup
import BenchTables.Proofs.Outcome
import BenchTables.Proofs.SideBySide

/-!
# The layout of the round-trip table

The text of the round-trip table is a grid: every line of a block has ten cells, those that span the
block stand on its first line and say how many lines it has, and the blocks and their lines are in
ascending order of the sizes and rates of the authenticated rows (`roundTripTable_layout`).
-/

namespace BenchTables.Latex

/-! ## Sizes, rates and rows -/

theorem pairwise_distinctAscending (words : List UInt64) :
    (distinctAscending words).Pairwise (· < ·) := by
  have hsorted : (distinctAscending words).Pairwise fun a b => decide (a ≤ b) = true := by
    apply List.pairwise_mergeSort
    · intro a b c hab hbc
      exact decide_eq_true (UInt64.le_trans (of_decide_eq_true hab) (of_decide_eq_true hbc))
    · intro a b
      simpa using UInt64.le_total a b
  have hnodup : (distinctAscending words).Nodup :=
    (List.mergeSort_perm _ _).nodup_iff.mpr (nodup_firstAppearances words)
  apply hsorted.imp₂ _ hnodup
  intro a b hle hne
  exact UInt64.lt_of_le_of_ne (of_decide_eq_true hle) hne

/-- The first of rows with a size and a rate. -/
def IsFirstAt (rows : List LatencyRow) (dbSize rate : UInt64) (row : LatencyRow) : Prop :=
  (row.dbSize = dbSize ∧ row.rate = rate) ∧ ∃ before after, rows = before ++ row :: after ∧
    ∀ other ∈ before, ¬(other.dbSize = dbSize ∧ other.rate = rate)

theorem isFirstAt_of_rowAt? {rows : List LatencyRow} {dbSize rate : UInt64} {row : LatencyRow}
    (h : rowAt? rows dbSize rate = some row) : IsFirstAt rows dbSize rate row := by
  obtain ⟨hrow, before, after, hsplit, hbefore⟩ := List.find?_eq_some_iff_append.mp h
  refine ⟨by simpa using hrow, before, after, hsplit, fun other hother hother' => ?_⟩
  simpa [hother'] using hbefore other hother

/-! ## Lines -/

/-- The cells of the line at index `i` of a block of `span` lines.  Cells that span the block stand
on its first line only, and leave their place empty on all others. -/
def lineCells (span : ℕ) (label : String) (shared : SharedTimes) (name : String) (rate : UInt64)
    (row : LatencyRow) (i : ℕ) : List String :=
  let seconds := fun x => quantity x .second
  let spanned := fun content => if i = 0 then spanning span content else ""
  let total := LatencyRow.phase row .sendRetrieval + LatencyRow.phase row .recvRetrieval +
    shared.sendNotify + shared.recvNotify
  [spanned label, labelCommand name, Decimal.wordText rate,
    seconds (LatencyRow.phase row .sendRetrieval), spanned (seconds shared.sendNotify),
    spanned (seconds shared.recvGetNotified), seconds (LatencyRow.phase row .recvRetrieval),
    spanned (seconds shared.recvNotify), spanned (seconds shared.sendGetNotified),
    command "textbf" [" " ++ seconds total ++ " "] ++ rowEnd]

theorem RoundTripLine.text_eq (labels : RowLabels) (shared : SharedTimes)
    (line : RoundTripLine) (lead a b c d : String) :
    lead ++ line.text labels shared (twoCells a b) (twoCells c d) =
      String.intercalate " & " [lead, labelCommand (labels.of line.variant),
        Decimal.wordText line.rate, quantity (LatencyRow.phase line.row .sendRetrieval) .second,
        a, b, quantity (LatencyRow.phase line.row .recvRetrieval) .second, c, d,
        command "textbf" [" " ++ quantity (line.total shared) .second ++ " "] ++ rowEnd] ++
          "\n" := by
  unfold RoundTripLine.text twoCells
  simp only [String.intercalate_cons_cons, String.intercalate_singleton, String.append_assoc]

section Cells

variable {span : ℕ} {label name : String} {shared : SharedTimes} {rate : UInt64} {row : LatencyRow}
  {i : ℕ}

theorem staysInCell_lineCells (hlabel : StaysInCell label) (hname : StaysInCell name) :
    ∀ cell ∈ lineCells span label shared name rate row i, StaysInCell cell := by
  have hspanned : ∀ content, StaysInCell content →
      StaysInCell (if i = 0 then spanning span content else "") := by
    intro content hcontent
    split
    · exact hcontent.spanning span
    · decide
  have hseconds : ∀ x, StaysInCell (quantity x .second) := fun x => staysInCell_quantity x .second
  intro cell hcell
  simp only [lineCells, List.mem_cons, List.not_mem_nil, or_false] at hcell
  rcases hcell with rfl | rfl | rfl | rfl | rfl | rfl | rfl | rfl | rfl | rfl
  · exact hspanned _ hlabel
  · exact hname.labelCommand
  · exact staysInCell_natText rate.toNat
  · exact hseconds _
  · exact hspanned _ (hseconds _)
  · exact hspanned _ (hseconds _)
  · exact hseconds _
  · exact hspanned _ (hseconds _)
  · exact hspanned _ (hseconds _)
  · apply StaysInCell.append _ (by decide)
    apply StaysInCell.command (by decide)
    intro argument hargument
    rw [List.mem_singleton.mp hargument]
    exact (StaysInCell.append (by decide) (hseconds _)).append (by decide)

theorem map_trim_lineCells : (lineCells span label shared name rate row i).map Text.trim =
    lineCells span label shared name rate row i := by
  have hspanned : ∀ content, Text.trim (if i = 0 then spanning span content else "") =
      if i = 0 then spanning span content else "" := by
    intro content
    split
    · exact trim_command _ (List.cons_ne_nil _ _)
    · decide
  have hseconds : ∀ x, Text.trim (quantity x .second) = quantity x .second :=
    fun x => trim_command _ (List.cons_ne_nil _ _)
  have hlabel : Text.trim (labelCommand name) = labelCommand name :=
    trim_command _ (List.cons_ne_nil _ _)
  simp only [lineCells, List.map_cons, List.map_nil, hspanned, hseconds, hlabel, trim_wordText,
    trim_command_rowEnd _ (List.cons_ne_nil _ _)]

end Cells

/-- The cells of the line at index `i` of a block. -/
def RoundTripBlock.lineCells (labels : RowLabels) (block : RoundTripBlock) (line : RoundTripLine)
    (i : ℕ) : List String :=
  Latex.lineCells block.lines.length block.label block.shared (labels.of line.variant) line.rate
    line.row i

/-- The lines of the text of a block. -/
def RoundTripBlock.textLines (labels : RowLabels) (block : RoundTripBlock) : List String :=
  block.lines.zipIdx.map fun (line, i) =>
    String.intercalate " & " (block.lineCells labels line i)

theorem RoundTripBlock.first_text (labels : RowLabels) (block : RoundTripBlock)
    (line : RoundTripLine) :
    spanning block.lines.length block.label ++
        line.text labels block.shared
          (twoCells (spanning block.lines.length (quantity block.shared.sendNotify .second))
            (spanning block.lines.length (quantity block.shared.recvGetNotified .second)))
          (twoCells (spanning block.lines.length (quantity block.shared.recvNotify .second))
            (spanning block.lines.length (quantity block.shared.sendGetNotified .second))) =
      String.intercalate " & " (block.lineCells labels line 0) ++ "\n" := by
  rw [RoundTripLine.text_eq]
  rfl

theorem RoundTripBlock.later_text (labels : RowLabels) (block : RoundTripBlock)
    (line : RoundTripLine) {i : ℕ} (hi : i ≠ 0) :
    line.text labels block.shared (twoCells "" "") (twoCells "" "") =
      String.intercalate " & " (block.lineCells labels line i) ++ "\n" := by
  have htext := RoundTripLine.text_eq labels block.shared line "" "" "" "" ""
  rw [String.empty_append] at htext
  rw [htext, RoundTripBlock.lineCells, Latex.lineCells]
  simp only [if_neg hi]
  rfl

theorem RoundTripBlock.text_eq (labels : RowLabels) {block : RoundTripBlock}
    (h : block.lines ≠ []) :
    block.text labels =
      String.join ((block.textLines labels ++ ["\\midrule"]).map (· ++ "\n")) := by
  obtain ⟨first, others, hlines⟩ := List.exists_cons_of_ne_nil h
  -- Every line but the first has an index other than zero.
  have hothers : others.map (RoundTripLine.text labels block.shared (twoCells "" "")
      (twoCells "" "")) = ((others.zipIdx 1).map fun (line, i) =>
        String.intercalate " & " (block.lineCells labels line i) ++ "\n") := by
    conv_lhs => rw [← List.zipIdx_map_fst 1 others, List.map_map]
    apply List.map_congr_left
    rintro ⟨line, i⟩ hmem
    have hi := List.le_snd_of_mem_zipIdx hmem
    exact block.later_text labels line (by omega)
  have hfirst := block.first_text labels first
  unfold RoundTripBlock.text RoundTripBlock.lineTexts RoundTripBlock.textLines
  rw [hlines] at hfirst ⊢
  dsimp only
  rw [hothers, List.zipIdx_cons, List.map_cons, List.map_append, List.map_cons, String.join_append,
    String.join_cons, String.join_cons, ← hfirst, List.map_map]
  simp only [String.append_assoc]
  rfl

/-! ## Blocks -/

/-- The rows of one variant. -/
def rowsOf (noAuth auth : List LatencyRow) : Variant → List LatencyRow
  | .noAuth => noAuth
  | .auth => auth

/-- The rates and variants of the lines of a block. -/
def places (rates : List UInt64) : List (UInt64 × Variant) :=
  rates.flatMap fun rate => [(rate, .noAuth), (rate, .auth)]

/-- The label of a size is the greatest power of two that is not above it. -/
def IsLabel (dbSize : UInt64) (label : String) : Prop :=
  ∃ k, 2 ^ k ≤ dbSize.toNat ∧ dbSize.toNat < 2 ^ (k + 1) ∧
    label = "$2^" ++ braced (Decimal.natText k) ++ "$"

/-- The line of a rate and a variant, at index `i` of a block of `span` lines: it shows the times of
the first row of that size and rate, and has nine separators. -/
def IsLine (labels : RowLabels) (noAuth auth : List LatencyRow) (dbSize : UInt64) (span : ℕ)
    (label : String) (rate : UInt64) (variant : Variant) (i : ℕ) (line : String) : Prop :=
  ∃ row, IsFirstAt (rowsOf noAuth auth variant) dbSize rate row ∧
    cellsOf line =
      lineCells span label (.at noAuth auth dbSize) (labels.of variant) rate row i ∧
    line.toList.count '&' = 9

/-- The lines of the block of a size: for each of the rates one of either variant. -/
structure IsBlock (labels : RowLabels) (noAuth auth : List LatencyRow) (rates : List UInt64)
    (dbSize : UInt64) (lines : List String) : Prop where
  length_eq : lines.length = 2 * rates.length
  shows : ∃ label, IsLabel dbSize label ∧
    List.Forall₂ (fun ((rate, variant), i) line =>
        IsLine labels noAuth auth dbSize lines.length label rate variant i line)
      (places rates).zipIdx lines

theorem isLabel_of_powerOfTwo? {n : UInt64} {label : String} (h : powerOfTwo? n = some label) :
    IsLabel n label := by
  unfold powerOfTwo? at h
  split at h
  · cases h
  next hn =>
    cases h
    have hpos : n.toNat ≠ 0 := fun hzero => hn (UInt64.toNat_inj.mp hzero)
    exact ⟨n.toNat.log2, Nat.log2_self_le hpos, Nat.lt_log2_self, rfl⟩

theorem lineAt_eq_ok {rows : Variant → List LatencyRow} {dbSize rate : UInt64} {variant : Variant}
    {line : RoundTripLine} (h : lineAt rows dbSize rate variant = .ok line) :
    ∃ row, line = ⟨variant, rate, row⟩ ∧ IsFirstAt (rows variant) dbSize rate row := by
  unfold lineAt at h
  split at h
  next row hrow =>
    cases h
    exact ⟨row, rfl, isFirstAt_of_rowAt? hrow⟩
  · cases h

/-- What a block that could be made consists of. -/
theorem blockAt_eq_ok {noAuth auth : List LatencyRow} {rates : List UInt64} {dbSize : UInt64}
    {block : RoundTripBlock} (h : blockAt noAuth auth rates dbSize = .ok block) :
    IsLabel dbSize block.label ∧ block.shared = .at noAuth auth dbSize ∧
    List.Forall₂ (fun (place : UInt64 × Variant) line =>
        ∃ row, line = ⟨place.2, place.1, row⟩ ∧
          IsFirstAt (rowsOf noAuth auth place.2) dbSize place.1 row)
      (places rates) block.lines := by
  unfold blockAt at h
  obtain ⟨label, hlabel, h⟩ := bind_eq_ok_iff.mp h
  obtain ⟨lines, hlines, h⟩ := bind_eq_ok_iff.mp h
  cases h
  refine ⟨?_, rfl, (forall₂_of_mapM_eq_ok hlines).imp ?_⟩
  · cases hpower : powerOfTwo? dbSize with
    | none =>
      rw [hpower] at hlabel
      cases hlabel
    | some power =>
      rw [hpower] at hlabel
      cases hlabel
      exact isLabel_of_powerOfTwo? hpower
  · rintro ⟨rate, variant⟩ line hline
    obtain ⟨row, hrow, hfirst⟩ := lineAt_eq_ok hline
    -- Which rows are looked through is told by the variant.
    cases variant
    · exact ⟨row, hrow, hfirst⟩
    · exact ⟨row, hrow, hfirst⟩

theorem length_places (rates : List UInt64) : (places rates).length = 2 * rates.length := by
  induction rates with
  | nil => rfl
  | cons rate others ih =>
    unfold places at ih ⊢
    rw [List.flatMap_cons, List.length_append, ih]
    simp only [List.length_cons, List.length_nil]
    omega

section Blocks

variable {labels : RowLabels} {noAuth auth : List LatencyRow} {rates : List UInt64}
  {dbSize : UInt64} {block : RoundTripBlock}

theorem staysInCell_of_blockAt (hlabels : ∀ v, StaysInCell (labels.of v))
    (h : blockAt noAuth auth rates dbSize = .ok block) (line : RoundTripLine) (i : ℕ) :
    ∀ cell ∈ block.lineCells labels line i, StaysInCell cell := by
  obtain ⟨⟨k, -, -, hlabel⟩, -⟩ := blockAt_eq_ok h
  apply staysInCell_lineCells
  · rw [hlabel]
    exact (StaysInCell.append (by decide) (staysInCell_natText k).braced).append (by decide)
  · exact hlabels line.variant

theorem cellsOf_textLine (hlabels : ∀ v, StaysInCell (labels.of v))
    (h : blockAt noAuth auth rates dbSize = .ok block) (line : RoundTripLine) (i : ℕ) :
    cellsOf (String.intercalate " & " (block.lineCells labels line i)) =
      block.lineCells labels line i := by
  have hstays := staysInCell_of_blockAt hlabels h line i
  have hne : block.lineCells labels line i ≠ [] := List.cons_ne_nil _ _
  rw [cellsOf_intercalate hne fun cell hcell => (hstays cell hcell).separator]
  exact map_trim_lineCells

/-- The text of a block that could be made is read back as that block. -/
theorem isBlock_of_blockAt (hlabels : ∀ v, StaysInCell (labels.of v))
    (h : blockAt noAuth auth rates dbSize = .ok block) :
    IsBlock labels noAuth auth rates dbSize (block.textLines labels) := by
  obtain ⟨hlabel, hshared, hlines⟩ := blockAt_eq_ok h
  have hlength : (block.textLines labels).length = block.lines.length := by
    rw [RoundTripBlock.textLines, List.length_map, List.length_zipIdx]
  refine ⟨?_, block.label, hlabel, ?_⟩
  · rw [hlength, ← hlines.length_eq, length_places]
  · rw [hlength, RoundTripBlock.textLines, List.forall₂_map_right_iff]
    apply (forall₂_zipIdx hlines 0).imp
    -- The line at an index shows the place at the same index.
    rintro ⟨⟨rate, variant⟩, i⟩ ⟨line, j⟩ ⟨⟨row, hline, hfirst⟩, hij⟩
    dsimp only at hline hfirst hij
    subst hline hij
    have hcells := cellsOf_textLine hlabels h ⟨variant, rate, row⟩ i
    refine ⟨row, hfirst, ?_, ?_⟩
    · rw [hcells, RoundTripBlock.lineCells, hshared]
    · -- A line of ten cells has nine separators.
      have hcount := length_cellsOf (String.intercalate " & "
        (block.lineCells labels ⟨variant, rate, row⟩ i))
      rw [hcells] at hcount
      have hten : (block.lineCells labels ⟨variant, rate, row⟩ i).length = 10 := rfl
      dsimp only
      omega

/-- A block with a rate has a line. -/
theorem lines_ne_nil_of_blockAt (h : blockAt noAuth auth rates dbSize = .ok block)
    (hrates : rates ≠ []) : block.lines ≠ [] := by
  obtain ⟨-, -, hlines⟩ := blockAt_eq_ok h
  have hlength := hlines.length_eq
  rw [length_places] at hlength
  have hpos := List.length_pos_iff.mpr hrates
  intro hnil
  rw [hnil, List.length_nil] at hlength
  omega

theorem lineFeed_not_mem_textLines (hlabels : ∀ v, StaysInCell (labels.of v))
    (h : blockAt noAuth auth rates dbSize = .ok block) :
    ∀ line ∈ block.textLines labels, '\n' ∉ line.toList := by
  intro line hline
  obtain ⟨⟨shown, i⟩, -, rfl⟩ := List.mem_map.mp hline
  have hstays := staysInCell_of_blockAt hlabels h shown i
  exact lineFeed_not_mem_intercalate fun cell hcell => (hstays cell hcell).lineFeed

end Blocks

/-! ## The table -/

/-- The lines before the first block. -/
def headLines : List String :=
  ["\\scalebox\x7b0.8\x7d\x7b%",
    "\\begin\x7btabularx\x7d\x7b0.86\\textwidth\x7d\x7brlcrrrrrrr\x7d\\toprule& & Rate & " ++
      "S-Retrieval & S-Notify & R-GetNotify & R-Retrieval & R-Notify & S-GetNotify & " ++
      "\\textbf\x7bTotal\x7d\\\\",
    "\\midrule"]

theorem roundTripHead_eq : roundTripHead = String.join (headLines.map (· ++ "\n")) := by
  decide +kernel

/-- The lines after the last block. -/
def footLines : List String :=
  ["\\end\x7btabularx\x7d", "\x7d"]

theorem linesOf_closeTable : linesOf closeTable = footLines := by
  decide +kernel

/-- The lines of blocks, each followed by a rule. -/
def ruledLines (blocks : List (List String)) : List String :=
  blocks.flatMap (· ++ ["\\midrule"])

theorem join_text_eq (labels : RowLabels) {made : List RoundTripBlock}
    (h : ∀ block ∈ made, block.lines ≠ []) :
    String.join (made.map (RoundTripBlock.text labels)) =
      String.join ((ruledLines (made.map (RoundTripBlock.textLines labels))).map (· ++ "\n")) := by
  induction made with
  | nil => rfl
  | cons block others ih =>
    have hblock := block.text_eq labels (h block List.mem_cons_self)
    have hothers := ih fun b hb => h b (List.mem_cons_of_mem _ hb)
    rw [List.map_cons, String.join_cons, hblock, hothers, ← String.join_append, ← List.map_append]
    rfl

theorem lineFeed_not_mem_ruledLines {blocks : List (List String)}
    (h : ∀ lines ∈ blocks, ∀ line ∈ lines, '\n' ∉ line.toList) :
    ∀ line ∈ ruledLines blocks, '\n' ∉ line.toList := by
  intro line hline
  obtain ⟨lines, hlines, hmem⟩ := List.mem_flatMap.mp hline
  rcases List.mem_append.mp hmem with hmem | hmem
  · exact h lines hlines line hmem
  · rw [List.mem_singleton.mp hmem]
    decide

/-- The round-trip table of rows, read back: a head of as many columns, a block for each size of the
authenticated rows, ascending and followed by a rule, and the foot. -/
theorem roundTripTable_layout {labels : RowLabels} {noAuth auth : List LatencyRow} {text : String}
    (hlabels : ∀ v, StaysInCell (labels.of v)) (h : roundTripTable labels noAuth auth = .ok text) :
    ∃ sizes rates blocks,
      sizes.Pairwise (· < ·) ∧ (∀ size, size ∈ sizes ↔ ∃ row ∈ auth, row.dbSize = size) ∧
      rates.Pairwise (· < ·) ∧ (∀ rate, rate ∈ rates ↔ ∃ row ∈ auth, row.rate = rate) ∧
      List.Forall₂ (IsBlock labels noAuth auth rates) sizes blocks ∧
      linesOf text = headLines ++ ruledLines blocks ++ footLines ∧
      (headLines.map fun line => line.toList.count '&') = [0, 9, 0] := by
  obtain ⟨made, hmade, htext⟩ := bind_eq_ok_iff.mp h
  cases htext
  have hblocks := forall₂_of_mapM_eq_ok hmade
  have hsizes : ∀ size, size ∈ distinctAscending (auth.map (·.dbSize)) ↔
      ∃ row ∈ auth, row.dbSize = size := fun size => by
    rw [mem_distinctAscending, List.mem_map]
  have hrates : ∀ rate, rate ∈ distinctAscending (auth.map (·.rate)) ↔
      ∃ row ∈ auth, row.rate = rate := fun rate => by
    rw [mem_distinctAscending, List.mem_map]
  have hlines : ∀ block ∈ made, block.lines ≠ [] := by
    intro block hblock
    obtain ⟨size, hsize, hat⟩ := exists_left_of_forall₂ hblocks hblock
    -- A row that has a size has a rate as well.
    obtain ⟨row, hrow, -⟩ := (hsizes size).mp hsize
    exact lines_ne_nil_of_blockAt hat
      (List.ne_nil_of_mem ((hrates row.rate).mpr ⟨row, hrow, rfl⟩))
  have hfeeds : ∀ lines ∈ made.map (RoundTripBlock.textLines labels), ∀ line ∈ lines,
      '\n' ∉ line.toList := by
    intro lines hmem
    obtain ⟨block, hblock, rfl⟩ := List.mem_map.mp hmem
    obtain ⟨size, -, hat⟩ := exists_left_of_forall₂ hblocks hblock
    exact lineFeed_not_mem_textLines hlabels hat
  refine ⟨_, _, made.map (RoundTripBlock.textLines labels), pairwise_distinctAscending _, hsizes,
    pairwise_distinctAscending _, hrates, ?_, ?_, by decide +kernel⟩
  · rw [List.forall₂_map_right_iff]
    exact hblocks.imp fun size block hat => isBlock_of_blockAt hlabels hat
  · -- Head and blocks end with a line feed each, so their lines come off one after the other.
    rw [roundTripHead_eq, join_text_eq labels hlines, String.append_assoc,
      linesOf_join (by decide +kernel), linesOf_join (lineFeed_not_mem_ruledLines hfeeds),
      linesOf_closeTable, List.append_assoc]

/-- Rows of two sizes and two rates, one of them twice. -/
def repeatedRows : List LatencyRow :=
  [⟨"a", 1024, 1, Vector.replicate 7 2.5⟩, ⟨"b", 4096, 2, Vector.replicate 7 0.25⟩,
    ⟨"c", 1024, 2, Vector.replicate 7 1.0⟩, ⟨"d", 4096, 1, Vector.replicate 7 4.0⟩,
    ⟨"e", 1024, 1, Vector.replicate 7 8.0⟩]

theorem roundTripTable_repeatedRows :
    ∃ text, roundTripTable {} repeatedRows.reverse repeatedRows = .ok text := by
  have hsizes : distinctAscending (repeatedRows.map (·.dbSize)) = [1024, 4096] :=
    List.mergeSort_of_pairwise (by decide)
  have hrates : distinctAscending (repeatedRows.map (·.rate)) = [1, 2] :=
    List.mergeSort_of_pairwise (by decide)
  apply exists_eq_ok_of_isOk
  unfold roundTripTable blocks
  rw [hsizes, hrates]
  decide +kernel

theorem roundTripTable_layout_repeatedRows :
    ∃ text, roundTripTable {} repeatedRows.reverse repeatedRows = .ok text ∧
      ∃ sizes rates blocks, 4096 ∈ sizes ∧ 2 ∈ rates ∧
        List.Forall₂ (IsBlock {} repeatedRows.reverse repeatedRows rates) sizes blocks ∧
        linesOf text = headLines ++ ruledLines blocks ++ footLines := by
  obtain ⟨text, htext⟩ := roundTripTable_repeatedRows
  have hlabels : ∀ v, StaysInCell (RowLabels.of {} v) := by
    intro v
    cases v <;> decide
  obtain ⟨sizes, rates, blocks, -, hsizes, -, hrates, hblocks, hlines, -⟩ :=
    roundTripTable_layout hlabels htext
  refine ⟨text, htext, sizes, rates, blocks, (hsizes 4096).mpr ?_, (hrates 2).mpr ?_, hblocks,
    hlines⟩
  · decide +kernel
  · decide +kernel

end BenchTables.Latex
