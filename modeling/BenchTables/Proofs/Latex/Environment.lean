import BenchTables.Proofs.Latex.Balance
import BenchTables.Proofs.Latex.RoundTripLayout
import Mathlib.Data.List.Infix

/-!
# The environment of the tables

Both tables are one environment inside a scaled box whose brace is opened before it and closed
after it. Whatever the rows are, the text is balanced, the environment begins once and ends once,
and every line of figures stands between its two ends, balanced and ended by a row end and a line
feed (`tables_balanced`). A line between the ends cannot begin or end the environment, as the name
of the environment stands in braces and no argument in a line begins with its first letter.
-/

namespace BenchTables.Latex

def beginTabular : String := command "begin" ["tabularx"]

def endTabular : String := command "end" ["tabularx"]

/-- The number of places of a text where a part begins. -/
def occurrences (part text : String) : ℕ :=
  text.toList.tails.countP fun rest => part.toList.isPrefixOf rest

/-- A text that holds one table, with the rows in their order between the two ends of its
environment, and each row on a line of its own. -/
structure IsTable (rows : List String) (text : String) : Prop where
  balanced : IsBalanced text
  begins : occurrences beginTabular text = 1
  ends : occurrences endTabular text = 1
  /-- The ends match: what stands between them is balanced by itself. -/
  environment : ∃ before parts after,
    text = before ++ beginTabular ++ String.join parts ++ endTabular ++ after ∧
      IsBalanced (String.join parts) ∧ rows.Sublist parts
  row : ∀ row ∈ rows, IsBalanced row ∧
    ∃ content, row = content ++ "\\\\" ++ "\n" ∧ '\n' ∉ content.toList

/-! ## Counting in lines -/

section Occurrences

variable {part : String}

/-- A part without line feeds that starts a text ends before the first line feed. -/
theorem prefix_append_lineFeed_iff {l m p : List Char} (h : '\n' ∉ p) :
    p <+: l ++ '\n' :: m ↔ p <+: l := by
  constructor
  · intro hp
    rcases prefix_left_or_right hp with hp | ⟨rest, hrest, rfl⟩
    · exact hp
    · rcases List.prefix_cons_iff.mp hrest with rfl | ⟨others, rfl, -⟩
      · rw [List.append_nil]
      · exact absurd (List.mem_append_right _ List.mem_cons_self) h
  · exact fun hp => hp.trans (List.prefix_append l _)

/-- A part without line feeds occurs in a line or after it. -/
theorem occurrences_append (hpart : '\n' ∉ part.toList) (hne : part ≠ "") (line rest : String) :
    occurrences part (line ++ "\n" ++ rest) = occurrences part line + occurrences part rest := by
  have hnil : ¬part.toList <+: [] := by
    rw [List.prefix_nil, String.toList_eq_nil_iff]
    exact hne
  have hfeed : ¬part.toList <+: '\n' :: rest.toList := by
    intro hprefix
    exact hnil ((prefix_append_lineFeed_iff (l := []) hpart).mp hprefix)
  have htext : (line ++ "\n" ++ rest).toList = line.toList ++ '\n' :: rest.toList := by
    rw [String.toList_append, String.toList_append, List.append_assoc]
    rfl
  unfold occurrences
  rw [htext]
  induction line.toList with
  | nil =>
    have htails : ([] : List Char).tails = [[]] := rfl
    rw [List.nil_append, List.tails_cons, htails, List.countP_cons_of_neg, List.countP_cons_of_neg,
      List.countP_nil, Nat.zero_add]
    · exact fun hprefix => hnil (List.isPrefixOf_iff_prefix.mp hprefix)
    · exact fun hprefix => hfeed (List.isPrefixOf_iff_prefix.mp hprefix)
  | cons c others ih =>
    -- The part begins at the first character of both texts, or of neither.
    have hhead : part.toList.isPrefixOf (c :: (others ++ '\n' :: rest.toList)) =
        part.toList.isPrefixOf (c :: others) := by
      rw [Bool.eq_iff_iff, List.isPrefixOf_iff_prefix, List.isPrefixOf_iff_prefix,
        ← List.cons_append]
      exact prefix_append_lineFeed_iff hpart
    rw [List.cons_append, List.tails_cons, List.tails_cons, List.countP_cons, List.countP_cons, ih,
      hhead]
    omega

/-- A part with an argument that begins with a `t` does not occur in a line without such. -/
theorem IsInline.occurrences_eq_zero {s : String} (h : IsInline s)
    (hpart : ['\x7b', 't'] <:+: part.toList) : occurrences part s = 0 := by
  apply List.countP_eq_zero.mpr
  intro rest hrest hprefix
  have hinfix : part.toList <:+: s.toList :=
    (List.isPrefixOf_iff_prefix.mp hprefix).isInfix.trans
      ((List.mem_tails _ _).mp hrest).isInfix
  have hpair := h.arguments.infix (hpart.trans hinfix)
  exact absurd rfl (List.isChain_pair.mp hpair rfl)

/-- Such a part does not occur in lines, so it occurs in what follows them. -/
theorem occurrences_join (hpart : '\n' ∉ part.toList) (hne : part ≠ "")
    (hargument : ['\x7b', 't'] <:+: part.toList) {lines : List String}
    (h : ∀ line ∈ lines, IsInline line) (rest : String) :
    occurrences part (String.join (lines.map (· ++ "\n")) ++ rest) = occurrences part rest := by
  induction lines with
  | nil => rw [List.map_nil, String.join_nil, String.empty_append]
  | cons line others ih =>
    have hline := (h line List.mem_cons_self).occurrences_eq_zero hargument
    have hothers := ih fun l hl => h l (List.mem_cons_of_mem _ hl)
    rw [List.map_cons, String.join_cons, String.append_assoc, occurrences_append hpart hne, hline,
      hothers, Nat.zero_add]

end Occurrences

/-! ## Tables of lines -/

/-- A table of lines, of which the first follows the begin of the environment. -/
def tableText (options : String) (lines : List String) : String :=
  command "scalebox" ["0.8"] ++ "\x7b%\n" ++ beginTabular ++
    String.join ((options :: lines).map (· ++ "\n")) ++ closeTable

theorem isBalanced_lines {lines : List String} (h : ∀ line ∈ lines, IsInline line) :
    IsBalanced (String.join (lines.map (· ++ "\n"))) := by
  apply isBalanced_join
  intro part hpart
  obtain ⟨line, hline, rfl⟩ := List.mem_map.mp hpart
  exact (h line hline).balanced.append (by decide)

section Tables

variable {options : String} {lines contents : List String}

/-- The brace that is opened before the environment is closed after it. -/
theorem isBalanced_tableText (h : ∀ line ∈ options :: lines, IsInline line) :
    IsBalanced (tableText options lines) := by
  have htext : tableText options lines = command "scalebox" ["0.8"] ++
      braced ("%\n" ++ beginTabular ++ String.join ((options :: lines).map (· ++ "\n")) ++
        endTabular ++ "\n") := by
    have hopen : "\x7b%\n" = "\x7b" ++ "%\n" := rfl
    have hclose : closeTable = endTabular ++ "\n" ++ "\x7d" := rfl
    rw [tableText, braced, hopen, hclose]
    simp only [String.append_assoc]
  have hbegin : IsBalanced ("%\n" ++ beginTabular) := by decide
  have hend : IsBalanced endTabular := by decide
  have hinner := ((hbegin.append (isBalanced_lines h)).append hend).append (t := "\n") (by decide)
  rw [htext]
  exact IsBalanced.append (by decide) hinner.braced

/-- Of the lines of a table only the two with the ends of the environment count. -/
theorem occurrences_tableText {part : String} (hpart : part = beginTabular ∨ part = endTabular)
    (h : ∀ line ∈ lines, IsInline line) :
    occurrences part (tableText options lines) =
      occurrences part (beginTabular ++ options) + occurrences part endTabular := by
  have htext : tableText options lines = command "scalebox" ["0.8"] ++ "\x7b%" ++ "\n" ++
      (beginTabular ++ options ++ "\n" ++ (String.join (lines.map (· ++ "\n")) ++
        (endTabular ++ "\n" ++ "\x7d"))) := by
    have hopen : "\x7b%\n" = "\x7b%" ++ "\n" := rfl
    have hclose : closeTable = endTabular ++ "\n" ++ "\x7d" := rfl
    rw [tableText, List.map_cons, String.join_cons, hopen, hclose]
    simp only [String.append_assoc]
  have hfeed : '\n' ∉ part.toList := by
    rcases hpart with rfl | rfl <;> decide
  have hne : part ≠ "" := by
    rcases hpart with rfl | rfl <;> decide
  have hargument : ['\x7b', 't'] <:+: part.toList := by
    rcases hpart with rfl | rfl <;> decide
  have hscale : occurrences part (command "scalebox" ["0.8"] ++ "\x7b%") = 0 := by
    rcases hpart with rfl | rfl <;> decide +kernel
  have hfoot : occurrences part "\x7d" = 0 := by
    rcases hpart with rfl | rfl <;> decide +kernel
  rw [htext, occurrences_append hfeed hne, occurrences_append hfeed hne,
    occurrences_join hfeed hne hargument h, occurrences_append hfeed hne, hscale, hfoot]
  omega

theorem isTable_tableText (hoptions : IsInline options)
    (hbegin : occurrences beginTabular (beginTabular ++ options) = 1)
    (hend : occurrences endTabular (beginTabular ++ options) = 0)
    (hlines : ∀ line ∈ lines, IsInline line) (hsub : contents.Sublist lines)
    (hrows : ∀ content ∈ contents, ∃ cells, content = cells ++ "\\\\") :
    IsTable (contents.map (· ++ "\n")) (tableText options lines) := by
  have hall : ∀ line ∈ options :: lines, IsInline line :=
    List.forall_mem_cons.mpr ⟨hoptions, hlines⟩
  refine ⟨isBalanced_tableText hall, ?_, ?_, ?_, ?_⟩
  · have hother : occurrences beginTabular endTabular = 0 := by decide +kernel
    rw [occurrences_tableText (.inl rfl) hlines, hbegin, hother]
  · have hself : occurrences endTabular endTabular = 1 := by decide +kernel
    rw [occurrences_tableText (.inr rfl) hlines, hend, hself]
  · refine ⟨command "scalebox" ["0.8"] ++ "\x7b%\n", (options :: lines).map (· ++ "\n"), "\n\x7d",
      ?_, isBalanced_lines hall, (hsub.cons options).map _⟩
    have hclose : closeTable = endTabular ++ "\n\x7d" := rfl
    rw [tableText, hclose, ← String.append_assoc]
  · intro row hrow
    obtain ⟨content, hcontent, rfl⟩ := List.mem_map.mp hrow
    have hinline := hlines content (hsub.subset hcontent)
    obtain ⟨cells, rfl⟩ := hrows content hcontent
    refine ⟨hinline.balanced.append (by decide), cells, rfl, fun hmem => hinline.lineFeed ?_⟩
    rw [String.toList_append]
    exact List.mem_append_left _ hmem

end Tables

/-! ## The bandwidth table -/

/-- The line of a rate, without its line feed. -/
def rateContent (label : String) (line : UInt64 × List BandwidthRow) : String :=
  labelCommand label ++ " (" ++ Decimal.wordText line.1 ++ ") & " ++
    String.intercalate " & " (line.2.map fun row =>
      quantity (BandwidthRow.perRequest row) .kibibyte) ++ " " ++ rowEnd

theorem isInline_rateContent {label : String} (h : IsPlain label)
    (line : UInt64 × List BandwidthRow) : IsInline (rateContent label line) := by
  have hfigures : IsInline (String.intercalate " & " (line.2.map fun row =>
      quantity (BandwidthRow.perRequest row) .kibibyte)) := by
    apply isInline_intercalate (by decide)
    intro figure hfigure
    obtain ⟨row, -, rfl⟩ := List.mem_map.mp hfigure
    exact (isArgument_quantity _ _).toIsInline
  have hrate := (h.labelCommand.append (t := " (") (by decide)).append
    (isArgument_natText line.1.toNat).toIsInline
  exact (((hrate.append (t := ") & ") (by decide)).append hfigures).append
    (t := " ") (by decide)).append (t := rowEnd) (by decide)

def bandwidthOptions : String :=
  "\x7b0.65\\textwidth\x7d\x7blrrrrr\x7d\\\\\\toprule"

def bandwidthHeads : List String :=
  ["& \\multicolumn\x7b5\x7d\x7bc\x7d\x7bNumber of clients\x7d\\\\",
    "& $2^\x7b10\x7d$ & $2^\x7b12\x7d$ & $2^\x7b14\x7d$ & $2^\x7b16\x7d$ & $2^\x7b18\x7d$" ++
      "\\\\\\midrule"]

theorem bandwidthHead_eq : bandwidthHead = command "scalebox" ["0.8"] ++ "\x7b%\n" ++
    beginTabular ++ String.join ((bandwidthOptions :: bandwidthHeads).map (· ++ "\n")) := by
  decide +kernel

theorem isInline_referenceRows : ∀ line ∈ referenceRows, IsInline line := by
  intro line hline
  simp only [referenceRows, List.mem_cons, List.not_mem_nil, or_false] at hline
  -- The parts of a row are decided one by one, since a whole row is long.
  rcases hline with rfl | rfl | rfl
  all_goals
    repeat' with_reducible apply IsInline.append
    all_goals decide

def bandwidthLines (noAuth auth : List String) : List String :=
  bandwidthHeads ++ (noAuth ++ "\\addlinespace" :: (auth ++ "\\addlinespace" :: referenceRows))

theorem map_rateLine (label : String) (lines : List (UInt64 × List BandwidthRow)) :
    lines.map (rateLine label) = (lines.map (rateContent label)).map (· ++ "\n") := by
  rw [List.map_map]
  rfl

theorem bandwidthTable_eq (labels : RowLabels) (noAuth auth : List BandwidthRow) :
    bandwidthTable labels noAuth auth = tableText bandwidthOptions
      (bandwidthLines ((rateLines noAuth).map (rateContent labels.noAuth))
        ((rateLines auth).map (rateContent labels.auth))) := by
  have hspace : spaceBelow = "\\addlinespace" ++ "\n" := rfl
  unfold bandwidthTable variantLines tableText bandwidthLines
  rw [bandwidthHead_eq, map_rateLine, map_rateLine, hspace, ← List.cons_append]
  simp only [List.map_append, List.map_cons, String.join_append, String.join_cons,
    String.append_assoc]

theorem isTable_bandwidthTable {labels : RowLabels} (hlabels : ∀ v, IsPlain (labels.of v))
    (noAuth auth : List BandwidthRow) :
    IsTable ((rateLines noAuth).map (rateLine labels.noAuth) ++
      (rateLines auth).map (rateLine labels.auth)) (bandwidthTable labels noAuth auth) := by
  have hcontents : ∀ v, ∀ rows, ∀ line ∈ (rateLines rows).map (rateContent (labels.of v)),
      IsInline line ∧ ∃ cells, line = cells ++ "\\\\" := by
    intro v rows line hline
    obtain ⟨figures, -, rfl⟩ := List.mem_map.mp hline
    exact ⟨isInline_rateContent (hlabels v) figures, _, rfl⟩
  have hnoAuth := hcontents .noAuth noAuth
  have hauth := hcontents .auth auth
  rw [bandwidthTable_eq, map_rateLine, map_rateLine, ← List.map_append]
  refine isTable_tableText (by decide +kernel) (by decide +kernel) (by decide +kernel) ?_ ?_ ?_
  · intro line hline
    simp only [bandwidthLines, List.mem_append, List.mem_cons] at hline
    have hheads : ∀ line ∈ bandwidthHeads, IsInline line := by decide +kernel
    rcases hline with hline | hline | rfl | hline | rfl | hline
    · exact hheads line hline
    · exact (hnoAuth line hline).1
    · decide
    · exact (hauth line hline).1
    · decide
    · exact isInline_referenceRows line hline
  · apply List.Sublist.trans _ (List.sublist_append_right bandwidthHeads _)
    apply (List.Sublist.refl _).append
    exact (List.sublist_append_left _ _).cons _
  · intro content hcontent
    rcases List.mem_append.mp hcontent with hcontent | hcontent
    · exact (hnoAuth content hcontent).2
    · exact (hauth content hcontent).2

/-! ## The round-trip table -/

def roundTripOptions : String :=
  "\x7b0.86\\textwidth\x7d\x7brlcrrrrrrr\x7d\\toprule& & Rate & S-Retrieval & S-Notify & " ++
    "R-GetNotify & R-Retrieval & R-Notify & S-GetNotify & \\textbf\x7bTotal\x7d\\\\"

section RoundTrip

variable {labels : RowLabels} {noAuth auth : List LatencyRow} {made : List RoundTripBlock}

theorem isInline_lineCells {span : ℕ} {label name : String} {shared : SharedTimes} {rate : UInt64}
    {row : LatencyRow} {i : ℕ} (hlabel : IsArgument label) (hname : IsPlain name) :
    ∀ cell ∈ lineCells span label shared name rate row i, IsInline cell := by
  have hspanned : ∀ content, IsArgument content →
      IsInline (if i = 0 then spanning span content else "") := by
    intro content hcontent
    split
    · exact (hcontent.spanning span).toIsInline
    · decide
  have hseconds : ∀ x, IsArgument (quantity x .second) := fun x => isArgument_quantity x .second
  intro cell hcell
  simp only [lineCells, List.mem_cons, List.not_mem_nil, or_false] at hcell
  rcases hcell with rfl | rfl | rfl | rfl | rfl | rfl | rfl | rfl | rfl | rfl
  · exact hspanned _ hlabel
  · exact hname.labelCommand
  · exact (isArgument_natText rate.toNat).toIsInline
  · exact (hseconds _).toIsInline
  · exact hspanned _ (hseconds _)
  · exact hspanned _ (hseconds _)
  · exact (hseconds _).toIsInline
  · exact hspanned _ (hseconds _)
  · exact hspanned _ (hseconds _)
  · apply IsInline.append _ (by decide)
    apply IsArgument.toIsInline
    apply IsPlain.command (by decide)
    intro argument hargument
    rw [List.mem_singleton.mp hargument]
    constructor
    · exact (IsInline.append (by decide) (hseconds _).toIsInline).append (by decide)
    · rw [String.toList_append, String.toList_append]
      exact of_decide_eq_true rfl

theorem IsLabel.isArgument {dbSize : UInt64} {label : String} (h : IsLabel dbSize label) :
    IsArgument label := by
  obtain ⟨k, -, -, rfl⟩ := h
  constructor
  · exact (IsInline.append (by decide) (isArgument_natText k).braced).append (by decide)
  · rw [String.toList_append, String.toList_append]
    exact of_decide_eq_true rfl

/-- A line of figures of a block: the text in front of it ends with the row end of its last cell. -/
theorem isInline_textLine (hlabels : ∀ v, IsPlain (labels.of v)) {rates : List UInt64}
    {dbSize : UInt64} {block : RoundTripBlock} (h : blockAt noAuth auth rates dbSize = .ok block) :
    ∀ line ∈ block.textLines labels, IsInline line ∧ ∃ cells, line = cells ++ "\\\\" := by
  intro line hline
  obtain ⟨⟨shown, i⟩, -, rfl⟩ := List.mem_map.mp hline
  obtain ⟨hlabel, -⟩ := blockAt_eq_ok h
  constructor
  · exact isInline_intercalate (by decide)
      (isInline_lineCells hlabel.isArgument (hlabels shown.variant))
  · unfold RoundTripBlock.lineCells lineCells
    simp only [String.intercalate_cons_cons, String.intercalate_singleton, ← String.append_assoc]
    exact ⟨_, rfl⟩

/-- A size is that of a row, and the rate of the row gives its block a line. -/
theorem lines_ne_nil_of_blocks (h : blocks noAuth auth = .ok made) :
    ∀ block ∈ made, block.lines ≠ [] := by
  intro block hblock
  obtain ⟨size, hsize, hat⟩ := exists_left_of_forall₂ (forall₂_of_mapM_eq_ok h) hblock
  obtain ⟨row, hrow, -⟩ := List.mem_map.mp (mem_distinctAscending.mp hsize)
  exact lines_ne_nil_of_blockAt hat (List.ne_nil_of_mem
    (mem_distinctAscending.mpr (List.mem_map_of_mem hrow)))

theorem roundTripTable_eq {text : String} (h : roundTripTable labels noAuth auth = .ok text) :
    ∃ made, blocks noAuth auth = .ok made ∧ text = tableText roundTripOptions
      ("\\midrule" :: ruledLines (made.map (RoundTripBlock.textLines labels))) := by
  obtain ⟨made, hmade, htext⟩ := bind_eq_ok_iff.mp h
  cases htext
  refine ⟨made, hmade, ?_⟩
  have hhead : roundTripHead = command "scalebox" ["0.8"] ++ "\x7b%\n" ++ beginTabular ++
      String.join (([roundTripOptions, "\\midrule"]).map (· ++ "\n")) := by
    decide +kernel
  rw [hhead, join_text_eq labels (lines_ne_nil_of_blocks hmade), tableText]
  simp only [List.map_cons, List.map_nil, String.join_cons, String.join_nil, String.append_assoc,
    String.empty_append]

theorem isTable_roundTripTable (hlabels : ∀ v, IsPlain (labels.of v)) {text : String}
    (h : roundTripTable labels noAuth auth = .ok text) :
    ∃ made, blocks noAuth auth = .ok made ∧
      IsTable (made.flatMap fun block => (block.textLines labels).map (· ++ "\n")) text := by
  obtain ⟨made, hmade, rfl⟩ := roundTripTable_eq h
  refine ⟨made, hmade, ?_⟩
  have hcontents : ∀ line ∈ made.flatMap (RoundTripBlock.textLines labels),
      IsInline line ∧ ∃ cells, line = cells ++ "\\\\" := by
    intro line hline
    obtain ⟨block, hblock, hline⟩ := List.mem_flatMap.mp hline
    obtain ⟨size, -, hat⟩ := exists_left_of_forall₂ (forall₂_of_mapM_eq_ok hmade) hblock
    exact isInline_textLine hlabels hat line hline
  rw [← List.map_flatMap]
  refine isTable_tableText (by decide +kernel) (by decide +kernel) (by decide +kernel) ?_ ?_ ?_
  · intro line hline
    rcases List.mem_cons.mp hline with rfl | hline
    · decide
    · obtain ⟨lines, hlines, hline⟩ := List.mem_flatMap.mp hline
      obtain ⟨block, hblock, rfl⟩ := List.mem_map.mp hlines
      rcases List.mem_append.mp hline with hline | hline
      · exact (hcontents line (List.mem_flatMap.mpr ⟨block, hblock, hline⟩)).1
      · rw [List.mem_singleton.mp hline]
        decide
  · apply List.Sublist.cons
    unfold ruledLines
    rw [List.flatMap_map]
    exact List.Sublist.flatMap_right _ fun block _ => List.sublist_append_left _ _
  · exact fun content hcontent => (hcontents content hcontent).2

end RoundTrip

/-! ## Both tables -/

/-- With names that have neither braces nor line feeds, each table is balanced and has its lines of
figures between the ends of its one environment. -/
theorem tables_balanced {labels : RowLabels} (hlabels : ∀ v, IsPlain (labels.of v)) :
    (∀ noAuth auth, IsTable ((rateLines noAuth).map (rateLine labels.noAuth) ++
      (rateLines auth).map (rateLine labels.auth)) (bandwidthTable labels noAuth auth)) ∧
    ∀ noAuth auth text, roundTripTable labels noAuth auth = .ok text →
      ∃ made, blocks noAuth auth = .ok made ∧
        IsTable (made.flatMap fun block => (block.textLines labels).map (· ++ "\n")) text :=
  ⟨isTable_bandwidthTable hlabels, fun _ _ _ h => isTable_roundTripTable hlabels h⟩

/-- The figures of one size at two rates. -/
def twoRates : List BandwidthRow :=
  [⟨"a", 1024, 2, #v[2.5, 1.0]⟩, ⟨"b", 1024, 1, #v[0.25, 4.0]⟩]

theorem tables_balanced_repeatedRows :
    IsTable ([].map (rateLine "hprot") ++ (rateLines twoRates).map (rateLine "mprot"))
        (bandwidthTable {} [] twoRates) ∧
      ∃ text made, roundTripTable {} repeatedRows.reverse repeatedRows = .ok text ∧
        blocks repeatedRows.reverse repeatedRows = .ok made ∧
        IsTable (made.flatMap fun block => (block.textLines {}).map (· ++ "\n")) text := by
  have hlabels : ∀ v, IsPlain (RowLabels.of {} v) := by
    intro v
    cases v <;> decide
  obtain ⟨hbandwidth, hroundTrip⟩ := tables_balanced hlabels
  obtain ⟨text, htext⟩ := roundTripTable_repeatedRows
  obtain ⟨made, hmade, htable⟩ := hroundTrip _ _ text htext
  exact ⟨hbandwidth [] twoRates, text, made, htext, hmade, htable⟩

end BenchTables.Latex
