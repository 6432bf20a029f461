import BenchTables.Proofs.Csv.Encoding
import BenchTables.Proofs.Csv.Splitting
import BenchTables.Proofs.Measurement.Acceptance

/-!
# The line of a refused cell

A cell is refused with the number of a line.  It counts the line feeds up to the byte that ends the
record before, and so it is the line on which the record of the cell starts when there are none from
there on, as where all records end in a line feed and no line is empty (`invalidValue_line`).  After
a line end of two bytes the record starts one line further down (`invalidValue_line_behind`).
-/

namespace BenchTables.Measurement

open Csv

/-- The first record of a table that is not sound, and the first cell of it, in the order in which
cells are read, that does not hold what its column asks for. -/
inductive FirstBadRecord (column text : String) (kind : CellKind) :
    (records : List PlacedRecord) → (record : PlacedRecord) → Prop
  | intro {head record : PlacedRecord} {earlier later : List PlacedRecord}
      {header cells : List String} (hheader : List.Forall₂ CellText head.cells header)
      (hearlier : ∀ other ∈ earlier, ∃ start result, IsReadAs header ⟨start, other.cells⟩ result)
      (hlength : record.cells.length = header.length)
      (hcells : List.Forall₂ CellText record.cells cells) (hfilled : ∃ text ∈ cells, text ≠ "")
      (hfirst : IsFirstBadCell header cells column kind text) :
      FirstBadRecord column text kind (head :: (earlier ++ record :: later)) record

variable {source column text expectation : String} {kind : CellKind} {bytes : List UInt8}
  {line : ℕ} {record : PlacedRecord} {records : List PlacedRecord}

/-- A cell is refused in a record behind the header. -/
theorem FirstBadRecord.mem_tail (h : FirstBadRecord column text kind records record) :
    record ∈ records.tail := by
  cases h
  exact List.mem_append_right _ List.mem_cons_self

theorem exists_forall₂_append_cons {α β : Type} {R : α → β → Prop} {l : List α}
    {before after : List β} {b : β} (h : List.Forall₂ R l (before ++ b :: after)) :
    ∃ earlier a later, l = earlier ++ a :: later ∧ List.Forall₂ R earlier before ∧ R a b := by
  induction before generalizing l with
  | nil =>
    cases h with
    | cons hb _ => exact ⟨[], _, _, rfl, .nil, hb⟩
  | cons first before ih =>
    cases h with
    | cons hfirst hrest =>
      obtain ⟨earlier, a, later, rfl, hearlier, ha⟩ := ih hrest
      exact ⟨_ :: earlier, a, later, rfl, .cons hfirst hearlier, ha⟩

/-- A table that is refused for a cell has a header, and the cell is what is wrong with the first
record that is not sound. -/
theorem exists_isFirstOffence
    (h : readTable source bytes = .error (.invalidValue line column text expectation)) :
    ∃ head header raws, cut bytes = head :: raws ∧ List.Forall₂ CellText head.cells header ∧
      IsFirstOffence header raws (.invalidValue line column text expectation) := by
  cases hcut : cut bytes with
  | nil =>
    -- A text without records has no header, and lacks every column.
    have hempty : ∃ column ∈ requiredColumns, column ∉ ([] : List String) := by decide
    have hread : readTable source bytes = ofDocument source ⟨[], []⟩ := by
      rw [readTable, Document.read, hcut]
      rfl
    rw [hread, ofDocument_of_missing hempty] at h
    cases h
  | cons head raws =>
    cases hdecode : decodeCells head.start 0 head.cells with
    | error fault =>
      rw [readTable, Document.read, hcut, Document.ofRaw, hdecode] at h
      cases h
    | ok header =>
      have hhead := decodeCells_eq_ok_iff.mp hdecode
      refine ⟨head, header, raws, rfl, hhead, ?_⟩
      rw [readTable, Document.read_eq_checked hcut hhead] at h
      change ofDocument source (Document.checked header raws) = _ at h
      by_cases hheader : ∀ column ∈ requiredColumns, column ∈ header
      · rw [Document.checked, ofDocument_of_complete hheader] at h
        exact (ofRecords_eq_error_iff hheader).mp h
      · push Not at hheader
        rw [Document.checked, ofDocument_of_missing hheader] at h
        cases h

/-- A cell is refused in the first record that is not sound, with the line that its start has. -/
theorem exists_firstBadRecord
    (h : readTable source bytes = .error (.invalidValue line column text expectation))
    (hrecords : SplitsInto bytes records) :
    ∃ kind record, CellKind.expectation kind = expectation ∧
      FirstBadRecord column text kind records record ∧
      line = 1 + record.before.count lineFeed := by
  obtain ⟨head, header, raws, hcut, hheader, before, raw, after, rfl, hbefore, hraw⟩ :=
    exists_isFirstOffence h
  have hall := hrecords.forall₂_cut
  rw [hcut] at hall
  cases hall with
  | @cons first _ records _ hhead hrest =>
    obtain ⟨earlier, record, later, rfl, hearlier, hrecord⟩ := exists_forall₂_append_cons hrest
    have hboth : List.Forall₂
        (fun raw other => (∃ result, IsReadAs header raw result) ∧ IsCutFrom other raw)
        before earlier := (List.forall₂_and_left _ _).mpr ⟨hbefore, hearlier.flip⟩
    have hsound : ∀ other ∈ earlier, ∃ raw,
        (∃ result, IsReadAs header raw result) ∧ IsCutFrom other raw :=
      exists_forall₂_iff.mp ⟨before, hboth.flip⟩
    -- Records of another length, and those that are no text, are refused with other errors.
    generalize herror : TableError.invalidValue line column text expectation = error at hraw
    cases hraw with
    | width => cases herror
    | notText => cases herror
    | @badCell cells column text kind hlength hcells hfilled hfirst =>
      cases herror
      rw [hhead.cells] at hheader
      rw [hrecord.cells] at hlength hcells
      refine ⟨kind, record, rfl, .intro hheader ?_ hlength hcells hfilled hfirst, hrecord.line⟩
      intro other hother
      obtain ⟨raw, ⟨result, hresult⟩, hcut⟩ := hsound other hother
      exact ⟨raw.start, result, hcut.cells ▸ hresult⟩

/-- A text with a cell that is refused falls into records, and however it does, the cell is in the
first of them that is not sound.  The line is one more than the line feeds up to the byte that ends
the record before.  It is one more than those before the first byte of the record just when none of
the line ends in between is a line feed. -/
theorem invalidValue_line
    (h : readTable source bytes = .error (.invalidValue line column text expectation)) :
    (∃ records, SplitsInto bytes records) ∧
    ∀ records, SplitsInto bytes records →
      ∃ kind record, CellKind.expectation kind = expectation ∧
        FirstBadRecord column text kind records record ∧
        line = 1 + record.before.count lineFeed ∧
        (line = 1 + (record.before ++ record.gap).count lineFeed ↔ lineFeed ∉ record.gap) := by
  refine ⟨exists_splitsInto bytes, fun records hrecords => ?_⟩
  obtain ⟨kind, record, hkind, hrecord, hline⟩ := exists_firstBadRecord h hrecords
  refine ⟨kind, record, hkind, hrecord, hline, ?_⟩
  rw [← List.count_eq_zero, List.count_append, hline]
  omega

def refusedCells : List (List UInt8) :=
  (["1024", "32", "64", "maybe", "1", "false"] ++ List.replicate 19 "1").map Text.encode

/-- A header and a record whose `malicious` cannot be read, each with a line end behind it. -/
def refusedTable (lineEnd : List UInt8) : List UInt8 :=
  joinCells (requiredColumns.map Text.encode) ++ lineEnd ++ (joinCells refusedCells ++ lineEnd)

theorem invalidValue_line_refusedTable :
    readTable "raw.csv" (refusedTable [lineFeed]) =
      .error (.invalidValue 2 "malicious" "maybe" "expected true or false") ∧
    (∃ records, SplitsInto (refusedTable [lineFeed]) records) ∧
    ∀ records, SplitsInto (refusedTable [lineFeed]) records →
      ∃ kind record, CellKind.expectation kind = "expected true or false" ∧
        FirstBadRecord "malicious" "maybe" kind records record ∧
        2 = 1 + record.before.count lineFeed ∧
        (2 = 1 + (record.before ++ record.gap).count lineFeed ↔ lineFeed ∉ record.gap) := by
  have hread : readTable "raw.csv" (refusedTable [lineFeed]) =
      .error (.invalidValue 2 "malicious" "maybe" "expected true or false") := by decide +kernel
  exact ⟨hread, invalidValue_line hread⟩

/-- Two records with line ends of two bytes: the second byte of the first line end stands between
the records. -/
theorem splits_crlf {w v : List UInt8} {cs ds : List (List UInt8)} (hw : RecordSpan w cs)
    (hwne : w ≠ []) (hv : RecordSpan v ds) (hvne : v ≠ []) :
    Splits [] (w ++ [carriageReturn, lineFeed] ++ (v ++ [carriageReturn, lineFeed]))
      [⟨[], [], cs⟩, ⟨w ++ [carriageReturn], [lineFeed], ds⟩] := by
  have hfeed : ∀ b ∈ [lineFeed], ByteKind.of b = .lineEnd :=
    List.forall_mem_singleton.mpr rfl
  have hsecond : Splits (w ++ [carriageReturn]) ([lineFeed] ++ (v ++ [carriageReturn, lineFeed]))
      [⟨w ++ [carriageReturn], [lineFeed], ds⟩] :=
    .record hfeed hv hvne rfl (.nil hfeed)
  rw [List.append_assoc]
  exact .record (List.forall_mem_nil _) hw hwne rfl hsecond

/-- The line feed of a line end of two bytes is not counted for the record behind it. -/
theorem invalidValue_line_behind :
    readTable "raw.csv" (refusedTable [carriageReturn, lineFeed]) =
      .error (.invalidValue 1 "malicious" "maybe" "expected true or false") ∧
    ∃ head record kind, SplitsInto (refusedTable [carriageReturn, lineFeed]) [head, record] ∧
      FirstBadRecord "malicious" "maybe" kind [head, record] record ∧
      1 + (record.before ++ record.gap).count lineFeed = 2 := by
  have hread : readTable "raw.csv" (refusedTable [carriageReturn, lineFeed]) =
      .error (.invalidValue 1 "malicious" "maybe" "expected true or false") := by decide +kernel
  have hhead : RecordForm (joinCells (requiredColumns.map Text.encode)) _ :=
    joinCells_form (by decide)
  have hrecord : RecordForm (joinCells refusedCells) _ := joinCells_form (by decide)
  have hsplits : SplitsInto (refusedTable [carriageReturn, lineFeed]) _ :=
    ⟨[], rfl, splits_crlf hhead.span (by decide) hrecord.span (by decide)⟩
  obtain ⟨kind, record, -, hbad, -⟩ := exists_firstBadRecord hread hsplits
  obtain rfl := List.mem_singleton.mp hbad.mem_tail
  exact ⟨hread, _, _, kind, hsplits, hbad, by decide +kernel⟩

end BenchTables.Measurement
