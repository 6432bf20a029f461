import BenchTables.Proofs.Csv.Spans
import BenchTables.Proofs.Outcome
import Mathlib.Data.List.Forall2

/-!
# Where records stand

Every text falls into records with the line ends between them (`exists_splits`), and the records
that are cut from it are those, in their order (`forall₂_cut`).  The line that a record is said to
start on is told by the line feeds up to the byte that ends the record before; those of the line
ends between the two are not counted.
-/

namespace BenchTables.Csv

/-- A record where it stands in a text: the bytes up to the one that ends the record before it, and
the line ends from there to its first byte. -/
structure PlacedRecord where
  before : List UInt8
  gap : List UInt8
  cells : List (List UInt8)

/-- The records of a text that stands behind other bytes. -/
inductive Splits : (before text : List UInt8) → List PlacedRecord → Prop where
  | nil {before gap : List UInt8} (hgap : ∀ b ∈ gap, ByteKind.of b = .lineEnd) :
      Splits before gap []
  | unended {before gap w : List UInt8} {cells : List (List UInt8)}
      (hgap : ∀ b ∈ gap, ByteKind.of b = .lineEnd) (hw : RecordSpan w cells) (hne : w ≠ []) :
      Splits before (gap ++ w) [⟨before, gap, cells⟩]
  | unclosed {before gap w : List UInt8} {cells : List (List UInt8)}
      (hgap : ∀ b ∈ gap, ByteKind.of b = .lineEnd) (hw : OpenRecord w cells) :
      Splits before (gap ++ w) [⟨before, gap, cells⟩]
  | record {before gap w rest : List UInt8} {b : UInt8} {cells : List (List UInt8)}
      {records : List PlacedRecord} (hgap : ∀ b ∈ gap, ByteKind.of b = .lineEnd)
      (hw : RecordSpan w cells) (hne : w ≠ []) (hb : ByteKind.of b = .lineEnd)
      (hrest : Splits (before ++ (gap ++ (w ++ [b]))) rest records) :
      Splits before (gap ++ (w ++ b :: rest)) (⟨before, gap, cells⟩ :: records)

/-- The records of bytes; a byte order mark at their start stands before all of them. -/
def SplitsInto (bytes : List UInt8) (records : List PlacedRecord) : Prop :=
  ∃ mark, bytes = mark ++ Text.dropByteOrderMark bytes ∧
    Splits mark (Text.dropByteOrderMark bytes) records

variable {bytes before gap text w c rest : List UInt8} {cells cs : List (List UInt8)}
  {records : List PlacedRecord} {p start : Position}

/-! ## Every text splits -/

/-- Bytes behind an opening quote: a body up to the quote that closes it, or a body without end. -/
theorem exists_quoted (text : List UInt8) :
    (∃ body tail, text = doubleQuotes body ++ quote :: tail ∧ ∀ b ∈ tail.head?, b ≠ quote) ∨
      ∃ body, text = doubleQuotes body := by
  match text with
  | [] => exact Or.inr ⟨[], rfl⟩
  | b :: rest =>
    by_cases hb : b = quote
    · subst hb
      match rest with
      | [] => exact Or.inl ⟨[], [], rfl, nofun⟩
      | d :: others =>
        by_cases hd : d = quote
        · subst hd
          -- Two quotes stand for one.
          rcases exists_quoted others with ⟨body, tail, rfl, htail⟩ | ⟨body, rfl⟩
          · exact Or.inl ⟨quote :: body, tail, rfl, htail⟩
          · exact Or.inr ⟨quote :: body, rfl⟩
        · refine Or.inl ⟨[], d :: others, rfl, ?_⟩
          rintro e ⟨⟩
          exact hd
    · have hbytes : ∀ body, doubleQuotes (b :: body) = b :: doubleQuotes body := by
        intro body
        rw [doubleQuotes, List.flatMap_cons, if_neg hb]
        rfl
      rcases exists_quoted rest with ⟨body, tail, rfl, htail⟩ | ⟨body, rfl⟩
      · exact Or.inl ⟨b :: body, tail, by rw [hbytes]; rfl, htail⟩
      · exact Or.inr ⟨b :: body, (hbytes body).symm⟩
termination_by text.length

/-- Bytes with a property, up to the first one that lacks it. -/
theorem exists_upTo (P : UInt8 → Prop) (text : List UInt8) :
    ∃ w rest, text = w ++ rest ∧ (∀ b ∈ w, P b) ∧ ∀ b ∈ rest.head?, ¬P b := by
  rcases forall_or_exists_first P text with hall | ⟨w, b, rest, rfl, hw, hb⟩
  · exact ⟨text, [], (List.append_nil text).symm, hall, nofun⟩
  · refine ⟨w, b :: rest, rfl, hw, ?_⟩
    rintro c ⟨⟩
    exact hb

/-- A text begins with a cell, or with a quote that is never closed. -/
theorem exists_cell (text : List UInt8) :
    (∃ w c rest, text = w ++ rest ∧ CellSpan w c ∧ ∀ b ∈ rest.head?, EndsCell b) ∨
      ∃ body, text = quote :: doubleQuotes body := by
  by_cases hquote : ∃ others, text = quote :: others
  · obtain ⟨others, rfl⟩ := hquote
    rcases exists_quoted others with ⟨body, behind, rfl, hbehind⟩ | ⟨body, rfl⟩
    · left
      obtain ⟨tail, rest, rfl, htail, hrest⟩ := exists_upTo (¬EndsCell ·) behind
      refine ⟨quote :: (doubleQuotes body ++ quote :: tail), body ++ tail, rest, by simp,
        .quoted body tail ?_ htail, fun b hb => not_not.mp (hrest b hb)⟩
      cases tail with
      | nil => nofun
      | cons b tail => exact hbehind
    · exact Or.inr ⟨body, rfl⟩
  · left
    obtain ⟨w, rest, rfl, hw, hrest⟩ := exists_upTo (¬EndsCell ·) text
    refine ⟨w, w, rest, rfl, .bare w ?_ hw, fun b hb => not_not.mp (hrest b hb)⟩
    -- Only a quote at the very start would make the cell a quoted one.
    cases w with
    | nil => nofun
    | cons b w =>
      rintro d ⟨⟩ rfl
      exact hquote ⟨_, rfl⟩

/-- A text begins with a record, or is one that is never closed. -/
theorem exists_record (text : List UInt8) :
    (∃ w cells rest, text = w ++ rest ∧ RecordSpan w cells ∧
        ∀ b ∈ rest.head?, ByteKind.of b = .lineEnd) ∨
      ∃ cells, OpenRecord text cells := by
  -- Each cell leaves a shorter text, also when the cell has no bytes: its comma is taken off.
  induction hlength : text.length using Nat.strongRecOn generalizing text with
  | ind n ih =>
    rcases exists_cell text with ⟨w, c, rest, rfl, hw, hrest⟩ | ⟨body, rfl⟩
    · by_cases hcomma : ∃ others, rest = comma :: others
      · -- Behind a comma the record goes on.
        obtain ⟨others, rfl⟩ := hcomma
        have hshorter : others.length < n := by
          rw [← hlength, List.length_append, List.length_cons]
          omega
        rcases ih _ hshorter others rfl with ⟨ws, cells, rest, rfl, hws, hends⟩ | ⟨cells, hopen⟩
        · exact Or.inl ⟨_, _, rest, by simp, .cons hw hws, hends⟩
        · exact Or.inr ⟨_, .cons hw hopen⟩
      · refine Or.inl ⟨w, [c], rest, rfl, .single hw, ?_⟩
        cases rest with
        | nil => nofun
        | cons b others =>
          rintro d ⟨⟩
          refine (hrest b rfl).resolve_left fun hkind => hcomma ⟨others, ?_⟩
          rw [kind_eq_comma_iff.mp hkind]
    · exact Or.inr ⟨_, .intro .nil body⟩

theorem exists_splits (before text : List UInt8) : ∃ records, Splits before text records := by
  induction hlength : text.length using Nat.strongRecOn generalizing before text with
  | ind n ih =>
    obtain ⟨gap, others, rfl, hgap, hothers⟩ := exists_upTo (ByteKind.of · = .lineEnd) text
    cases others with
    | nil => exact ⟨[], by rw [List.append_nil]; exact .nil hgap⟩
    | cons d others =>
      rcases exists_record (d :: others) with ⟨w, cells, rest, hparts, hw, hends⟩ | ⟨cells, hopen⟩
      swap
      · exact ⟨_, .unclosed hgap hopen⟩
      rw [hparts] at hlength hothers ⊢
      -- What is not a line end belongs to the record.
      have hne : w ≠ [] := by
        rintro rfl
        cases rest with
        | nil => cases hparts
        | cons b rest => exact hothers b rfl (hends b rfl)
      cases rest with
      | nil => exact ⟨_, by rw [List.append_nil]; exact .unended hgap hw hne⟩
      | cons b rest =>
        have hshorter : rest.length < n := by
          rw [← hlength, List.length_append, List.length_append, List.length_cons]
          omega
        obtain ⟨records, hrecords⟩ := ih _ hshorter (before ++ (gap ++ (w ++ [b]))) rest rfl
        exact ⟨_, .record hgap hw hne (hends b rfl) hrecords⟩

/-- The byte order mark that is dropped, or nothing. -/
theorem exists_mark (bytes : List UInt8) :
    ∃ mark, bytes = mark ++ Text.dropByteOrderMark bytes ∧ lineFeed ∉ mark := by
  rw [Text.dropByteOrderMark]
  split
  next hmark =>
    obtain ⟨rest, rfl⟩ := List.isPrefixOf_iff_prefix.mp hmark
    exact ⟨Text.byteOrderMark, by rw [List.drop_left], by decide⟩
  next => exact ⟨[], rfl, List.not_mem_nil⟩

theorem exists_splitsInto (bytes : List UInt8) : ∃ records, SplitsInto bytes records := by
  obtain ⟨mark, hmark, -⟩ := exists_mark bytes
  obtain ⟨records, hrecords⟩ := exists_splits mark (Text.dropByteOrderMark bytes)
  exact ⟨records, mark, hmark, hrecords⟩

/-! ## The scan over a text -/

theorem line_advanced (p : Position) (bytes : List UInt8) :
    (Scan.advanced p bytes).line = p.line + bytes.count lineFeed := by
  induction bytes generalizing p with
  | nil => rfl
  | cons b rest ih =>
    have hstep : Scan.advanced p (b :: rest) = Scan.advanced (p.advance b) rest := rfl
    rw [hstep, ih, List.count_cons, Position.advance]
    by_cases hb : b = lineFeed
    · simp only [hb, if_true, beq_self_eq_true]
      omega
    · simp only [hb, if_false, beq_iff_eq, Nat.add_zero]

/-- Line ends before a record move the position only. -/
theorem passes_gap (start p : Position) (hgap : ∀ b ∈ gap, ByteKind.of b = .lineEnd) :
    Scan.Passes ⟨.between, start, p, [], []⟩ gap
      ⟨.between, start, Scan.advanced p gap, [], []⟩ := by
  induction gap generalizing p with
  | nil => exact Scan.Passes.nil _
  | cons b rest ih =>
    obtain ⟨hb, hrest⟩ := List.forall_mem_cons.mp hgap
    exact Scan.Passes.cons (Scan.step_between_lineEnd start p [] [] hb) (ih _ hrest)

/-- A record is cut from a text where it stands. -/
structure IsCutFrom (placed : PlacedRecord) (raw : RawRecord) : Prop where
  cells : raw.cells = placed.cells
  line : raw.start.line = 1 + placed.before.count lineFeed

/-- The records of a text are cut from it, whatever stands before it. -/
theorem Splits.forall₂_run (h : Splits before text records)
    (hstart : start.line = 1 + before.count lineFeed) (hhere : p.line = start.line) :
    List.Forall₂ IsCutFrom records (Scan.run ⟨.between, start, p, [], []⟩ text) := by
  induction h generalizing start p with
  | nil hgap =>
    have hrun := passes_gap start p hgap []
    rw [List.append_nil] at hrun
    rw [hrun]
    exact .nil
  | @unended before gap w cells hgap hw hne =>
    obtain ⟨mode, done, last, hpass, hcells, hleaves⟩ :=
      Scan.passes_record start (Scan.advanced p gap) [] hw (Or.inl rfl)
    have hrun := (passes_gap start p hgap).trans hpass []
    rw [List.append_nil] at hrun
    rw [hrun, Scan.run, Scan.finish, if_neg (hleaves.begun hne)]
    exact .cons ⟨hcells, hstart⟩ .nil
  | @unclosed before gap w cells hgap hw =>
    obtain ⟨done, last, hpass, hcells⟩ :=
      Scan.passes_openRecord start (Scan.advanced p gap) [] hw (Or.inl rfl)
    have hrun := (passes_gap start p hgap).trans hpass []
    rw [List.append_nil] at hrun
    have hquoted : Mode.quoted ≠ .between := by decide
    rw [hrun, Scan.run, Scan.finish, if_neg hquoted]
    exact .cons ⟨hcells, hstart⟩ .nil
  | @record before gap w rest b cells records hgap hw hne hb _ ih =>
    obtain ⟨mode, done, last, hpass, hcells, hleaves⟩ :=
      Scan.passes_record start (Scan.advanced p gap) [] hw (Or.inl rfl)
    have hrun := (passes_gap start p hgap).trans hpass (b :: rest)
    rw [← List.append_assoc, hrun, Scan.run,
      Scan.step_lineEnd _ _ _ _ hleaves.unquoted (hleaves.begun hne) hb]
    refine .cons ⟨hcells, hstart⟩ (ih ?_ rfl)
    -- The byte that ends a record is the last one that is counted for the next.
    have hpassed : (Scan.advanced (Scan.advanced p gap) w).advance b =
        Scan.advanced p (gap ++ (w ++ [b])) := by
      simp only [Scan.advanced, List.foldl_append, List.foldl_cons, List.foldl_nil]
    change ((Scan.advanced (Scan.advanced p gap) w).advance b).line = _
    have hcount : (before ++ (gap ++ (w ++ [b]))).count lineFeed =
        before.count lineFeed + (gap ++ (w ++ [b])).count lineFeed := List.count_append
    rw [hpassed, line_advanced, hhere, hstart, hcount, Nat.add_assoc]

/-- The records of a file are cut from it, each where it stands. -/
theorem SplitsInto.forall₂_cut (h : SplitsInto bytes records) :
    List.Forall₂ IsCutFrom records (cut bytes) := by
  obtain ⟨mark, hmark, hsplits⟩ := h
  obtain ⟨mark', hmark', hfeed⟩ := exists_mark bytes
  -- A byte order mark holds no line feed, so counting begins at the first line.
  obtain rfl : mark = mark' := List.append_cancel_right (hmark.symm.trans hmark')
  refine hsplits.forall₂_run ?_ rfl
  rw [List.count_eq_zero_of_not_mem hfeed]
  rfl

end BenchTables.Csv
