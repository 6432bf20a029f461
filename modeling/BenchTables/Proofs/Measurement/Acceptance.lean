import BenchTables.Proofs.Csv.Checking
import BenchTables.Proofs.Measurement.Record
import BenchTables.Proofs.SideBySide
import Mathlib.Data.List.ReduceOption

/-!
# Which measurement tables are read

A table whose header has every required column is read when each of its records is sound, and gives
the measurements of those that are not empty.  Else it is refused for the columns that its header
lacks, whatever the records are, or for the first record that is not sound:
`table_read_or_first_offence`.
-/

namespace BenchTables.Measurement

open Csv

/-- What a sound record is read as: nothing when all of its cells are empty, else a measurement. -/
inductive IsReadAs (header : List String) (raw : RawRecord) : Option Measurement → Prop
  | blank {cells : List String} (hlength : raw.cells.length = header.length)
      (hcells : List.Forall₂ CellText raw.cells cells) (hblank : ∀ text ∈ cells, text = "") :
      IsReadAs header raw none
  | row {cells : List String} {m : Measurement} (hlength : raw.cells.length = header.length)
      (hcells : List.Forall₂ CellText raw.cells cells) (hfilled : ∃ text ∈ cells, text ≠ "")
      (hrow : IsRecordOf header cells m) : IsReadAs header raw (some m)

/-- What is wrong with a record that is not sound. -/
inductive Offends (header : List String) (raw : RawRecord) : TableError → Prop
  | width (hlength : raw.cells.length ≠ header.length) :
      Offends header raw
        (.malformed (.unequalLengths raw.start header.length raw.cells.length))
  | notText {field offset : ℕ} (hlength : raw.cells.length = header.length)
      (hfirst : FirstNoText raw.cells field offset) :
      Offends header raw (.malformed (.invalidUtf8 raw.start field offset))
  | badCell {cells : List String} {column text : String} {kind : CellKind}
      (hlength : raw.cells.length = header.length)
      (hcells : List.Forall₂ CellText raw.cells cells) (hfilled : ∃ text ∈ cells, text ≠ "")
      (hfirst : IsFirstBadCell header cells column kind text) :
      Offends header raw (.invalidValue raw.start.line column text kind.expectation)

/-- What is wrong with the first record that is not sound. -/
def IsFirstOffence (header : List String) (raws : List RawRecord) (error : TableError) : Prop :=
  ∃ before raw after, raws = before ++ raw :: after ∧
    (∀ other ∈ before, ∃ result, IsReadAs header other result) ∧ Offends header raw error

variable {source : String} {header cells : List String} {raw : RawRecord} {raws : List RawRecord}
  {record : Record} {result : Option Measurement} {results : List (Option Measurement)}
  {rows : List Measurement} {error : TableError}

theorem isBlankRecord_iff : isBlankRecord record ↔ ∀ text ∈ record.cells, text = "" := by
  simp [isBlankRecord]

theorem not_isBlankRecord_iff : ¬isBlankRecord record ↔ ∃ text ∈ record.cells, text ≠ "" := by
  rw [isBlankRecord_iff]
  push Not
  rfl

section Records

variable (hheader : ∀ column ∈ requiredColumns, column ∈ header)

include hheader

/-! ## One record -/

/-- A sound record adds what it is read as to the rows of the records after it. -/
theorem ofRecords_cons_of_isReadAs (h : IsReadAs header raw result)
    (rest : List (Except Fault Record)) :
    ofRecords header (checkRecord header.length raw :: rest) =
      (result.toList ++ ·) <$> ofRecords header rest := by
  cases h with
  | @blank cells hlength hcells hblank =>
    have hcheck : checkRecord header.length raw = .ok ⟨raw.start, cells⟩ :=
      checkRecord_eq_ok_iff.mpr ⟨hlength, rfl, hcells⟩
    rw [hcheck, ofRecords, if_pos (isBlankRecord_iff.mpr hblank)]
    exact (id_map (ofRecords header rest)).symm
  | @row cells m hlength hcells hfilled hrow =>
    have hcheck : checkRecord header.length raw = .ok ⟨raw.start, cells⟩ :=
      checkRecord_eq_ok_iff.mpr ⟨hlength, rfl, hcells⟩
    have hread : ofRecord header ⟨raw.start, cells⟩ = .ok m :=
      (ofRecord_eq_ok_iff (hcells.length_eq ▸ hlength) hheader).mpr hrow
    rw [hcheck, ofRecords, if_neg (not_isBlankRecord_iff.mpr hfilled), hread, ok_bind]
    rfl

/-- The reading ends at a record that is not sound. -/
theorem ofRecords_cons_of_offends (h : Offends header raw error)
    (rest : List (Except Fault Record)) :
    ofRecords header (checkRecord header.length raw :: rest) = .error error := by
  cases h with
  | width hlength => rw [checkRecord_eq_error_iff.mpr (Or.inl ⟨hlength, rfl⟩), ofRecords]
  | notText hlength hfirst =>
    rw [checkRecord_eq_error_iff.mpr (Or.inr ⟨hlength, _, _, hfirst, rfl⟩), ofRecords]
  | @badCell cells column text kind hlength hcells hfilled hfirst =>
    have hcheck : checkRecord header.length raw = .ok ⟨raw.start, cells⟩ :=
      checkRecord_eq_ok_iff.mpr ⟨hlength, rfl, hcells⟩
    have hread : ofRecord header ⟨raw.start, cells⟩ =
        .error (.invalidValue raw.start.line column text kind.expectation) :=
      (ofRecord_eq_error_iff (hcells.length_eq ▸ hlength) hheader).mpr ⟨_, _, _, hfirst, rfl⟩
    rw [hcheck, ofRecords, if_neg (not_isBlankRecord_iff.mpr hfilled), hread]
    rfl

theorem isReadAs_or_offends (raw : RawRecord) :
    (∃ result, IsReadAs header raw result) ∨ ∃ error, Offends header raw error := by
  cases hcheck : checkRecord header.length raw with
  | error fault =>
    right
    rcases checkRecord_eq_error_iff.mp hcheck with
      ⟨hlength, rfl⟩ | ⟨hlength, field, offset, hfirst, rfl⟩
    · exact ⟨_, .width hlength⟩
    · exact ⟨_, .notText hlength hfirst⟩
  | ok record =>
    obtain ⟨hlength, hposition, hcells⟩ := checkRecord_eq_ok_iff.mp hcheck
    by_cases hblank : ∀ text ∈ record.cells, text = ""
    · exact Or.inl ⟨none, .blank hlength hcells hblank⟩
    push Not at hblank
    have hwidth : record.cells.length = header.length := hcells.length_eq ▸ hlength
    cases hread : ofRecord header record with
    | ok m =>
      exact Or.inl ⟨some m, .row hlength hcells hblank
        ((ofRecord_eq_ok_iff hwidth hheader).mp hread)⟩
    | error error =>
      obtain ⟨column, kind, text, hfirst, -⟩ := (ofRecord_eq_error_iff hwidth hheader).mp hread
      exact Or.inr ⟨_, .badCell hlength hcells hblank hfirst⟩

/-! ## All records -/

theorem ofRecords_append (h : List.Forall₂ (IsReadAs header) raws results)
    (rest : List (Except Fault Record)) :
    ofRecords header (raws.map (checkRecord header.length) ++ rest) =
      (results.reduceOption ++ ·) <$> ofRecords header rest := by
  induction h with
  | nil => exact (id_map (ofRecords header rest)).symm
  | @cons raw result raws results hfirst _ ih =>
    rw [List.map_cons, List.cons_append, ofRecords_cons_of_isReadAs hheader hfirst, ih]
    cases ofRecords header rest with
    | error error => rfl
    | ok rows =>
      cases result with
      | none => rfl
      | some m => rfl

theorem ofRecords_of_isReadAs (h : List.Forall₂ (IsReadAs header) raws results) :
    ofRecords header (raws.map (checkRecord header.length)) = .ok results.reduceOption := by
  have hall := ofRecords_append hheader h []
  rw [List.append_nil] at hall
  rw [hall, ofRecords]
  exact congrArg Except.ok (List.append_nil _)

theorem ofRecords_of_isFirstOffence (h : IsFirstOffence header raws error) :
    ofRecords header (raws.map (checkRecord header.length)) = .error error := by
  obtain ⟨before, raw, after, rfl, hbefore, hraw⟩ := h
  obtain ⟨results, hresults⟩ := exists_forall₂_iff.mpr hbefore
  rw [List.map_append, List.map_cons, ofRecords_append hheader hresults,
    ofRecords_cons_of_offends hheader hraw]
  rfl

/-- All records are sound, or there is a first one that is not. -/
theorem all_read_or_first_offence (raws : List RawRecord) :
    (∃ results, List.Forall₂ (IsReadAs header) raws results) ∨
      ∃ error, IsFirstOffence header raws error := by
  refine (forall_or_exists_first (fun raw => ∃ result, IsReadAs header raw result) raws).imp
    exists_forall₂_iff.mpr ?_
  rintro ⟨before, raw, after, rfl, hbefore, hraw⟩
  obtain ⟨error, herror⟩ := (isReadAs_or_offends hheader raw).resolve_left hraw
  exact ⟨error, before, raw, after, rfl, hbefore, herror⟩

theorem ofRecords_eq_ok_iff :
    ofRecords header (raws.map (checkRecord header.length)) = .ok rows ↔
      ∃ results, List.Forall₂ (IsReadAs header) raws results ∧ rows = results.reduceOption := by
  constructor
  · intro h
    rcases all_read_or_first_offence hheader raws with ⟨results, hresults⟩ | ⟨error, herror⟩
    · rw [ofRecords_of_isReadAs hheader hresults] at h
      exact ⟨results, hresults, (Except.ok.inj h).symm⟩
    · rw [ofRecords_of_isFirstOffence hheader herror] at h
      cases h
  · rintro ⟨results, hresults, rfl⟩
    exact ofRecords_of_isReadAs hheader hresults

theorem ofRecords_eq_error_iff :
    ofRecords header (raws.map (checkRecord header.length)) = .error error ↔
      IsFirstOffence header raws error := by
  constructor
  · intro h
    rcases all_read_or_first_offence hheader raws with ⟨results, hresults⟩ | ⟨other, hother⟩
    · rw [ofRecords_of_isReadAs hheader hresults] at h
      cases h
    · rw [ofRecords_of_isFirstOffence hheader hother] at h
      exact Except.error.inj h ▸ hother
  · exact ofRecords_of_isFirstOffence hheader

end Records

/-! ## The table -/

theorem missingColumns_eq (header required : List String) :
    missingColumns header required = required.filter (· ∉ header) := by
  simp [missingColumns]

theorem ofDocument_of_missing (hheader : ∃ column ∈ requiredColumns, column ∉ header)
    (records : List (Except Fault Record)) :
    ofDocument source ⟨header, records⟩ =
      .error (.missingColumns source (requiredColumns.filter (· ∉ header))) := by
  have hmissing : missingColumns header requiredColumns ≠ [] := by
    rw [missingColumns_eq, Ne, List.filter_eq_nil_iff]
    push Not
    simpa using hheader
  rw [ofDocument, locateColumns, if_neg hmissing, missingColumns_eq]
  rfl

theorem ofDocument_of_complete (hheader : ∀ column ∈ requiredColumns, column ∈ header)
    (records : List (Except Fault Record)) :
    ofDocument source ⟨header, records⟩ = ofRecords header records := by
  have hmissing : missingColumns header requiredColumns = [] := by
    rw [missingColumns_eq, List.filter_eq_nil_iff]
    simpa using hheader
  rw [ofDocument, locateColumns, if_pos hmissing]
  rfl

/-- A table is refused for the columns that its header lacks, in the order in which they are
required, or else for its first record that is not sound.  When there is none, it gives one
measurement for each record that is not empty, in their order.  Bytes are read as the table of their
first record and those after it. -/
theorem table_read_or_first_offence (source : String) (header : List String)
    (raws : List RawRecord) :
    ((∃ column ∈ requiredColumns, column ∉ header) →
      ofDocument source (Document.checked header raws) =
        .error (.missingColumns source (requiredColumns.filter (· ∉ header)))) ∧
    ((∀ column ∈ requiredColumns, column ∈ header) →
      ((∃ rows, ofDocument source (Document.checked header raws) = .ok rows) ↔
        ∀ raw ∈ raws, ∃ result, IsReadAs header raw result) ∧
      (∀ rows, ofDocument source (Document.checked header raws) = .ok rows ↔
        ∃ results, List.Forall₂ (IsReadAs header) raws results ∧ rows = results.reduceOption) ∧
      ∀ error, ofDocument source (Document.checked header raws) = .error error ↔
        IsFirstOffence header raws error) ∧
    ∀ bytes head, Csv.cut bytes = head :: raws → List.Forall₂ CellText head.cells header →
      readTable source bytes = ofDocument source (Document.checked header raws) := by
  refine ⟨fun hheader => ofDocument_of_missing hheader _, fun hheader => ?_, ?_⟩
  · rw [Document.checked, ofDocument_of_complete hheader]
    refine ⟨?_, fun rows => ofRecords_eq_ok_iff hheader,
      fun error => ofRecords_eq_error_iff hheader⟩
    rw [← exists_forall₂_iff]
    simp only [ofRecords_eq_ok_iff hheader]
    exact ⟨fun ⟨_, results, h, _⟩ => ⟨results, h⟩, fun ⟨results, h⟩ => ⟨_, results, h, rfl⟩⟩
  · intro bytes head hcut hhead
    rw [readTable, Document.read_eq_checked hcut hhead]
    rfl

/-- The required columns, another one in front and a second `rate` behind them. -/
def looseHeader : List String :=
  "db_type" :: requiredColumns ++ ["rate"]

def looseCells (malicious : String) : List String :=
  ["TwoDB", "1024.0", "32", "64", malicious, "1", "false", "1"] ++ List.replicate 18 "0" ++ ["many"]

/-- A sound record, an empty one, one with a cell that cannot be read and one that is too short. -/
def looseRecords : List RawRecord :=
  [⟨⟨1, 2, 360⟩, (looseCells "True ").map Text.encode⟩, ⟨⟨2, 3, 430⟩, List.replicate 27 [0x20]⟩,
    ⟨⟨3, 4, 485⟩, (looseCells "maybe").map Text.encode⟩, ⟨⟨4, 5, 555⟩, [[0xFF]]⟩]

theorem table_read_or_first_offence_loose :
    (∃ column ∈ requiredColumns, column ∉ ["db_size"]) ∧
    ofDocument "raw.csv" (Document.checked ["db_size"] looseRecords) =
      .error (.missingColumns "raw.csv" (requiredColumns.filter (· ∉ ["db_size"]))) ∧
    (∀ column ∈ requiredColumns, column ∈ looseHeader) ∧
    (ofDocument "raw.csv" (Document.checked looseHeader (looseRecords.take 2))).map
      (·.map experimentId) = .ok ["10243264True1False1"] ∧
    (∀ raw ∈ looseRecords.take 2, ∃ result, IsReadAs looseHeader raw result) ∧
    IsFirstOffence looseHeader looseRecords
      (.invalidValue 4 "malicious" "maybe" "expected true or false") := by
  have hnarrow : ∃ column ∈ requiredColumns, column ∉ ["db_size"] := by decide
  have hheader : ∀ column ∈ requiredColumns, column ∈ looseHeader := by decide +kernel
  obtain ⟨hmissing, -, -⟩ := table_read_or_first_offence "raw.csv" ["db_size"] looseRecords
  obtain ⟨-, hread, -⟩ := table_read_or_first_offence "raw.csv" looseHeader (looseRecords.take 2)
  obtain ⟨-, hrefused, -⟩ := table_read_or_first_offence "raw.csv" looseHeader looseRecords
  refine ⟨hnarrow, hmissing hnarrow, hheader, by decide +kernel, ?_, ?_⟩
  · exact (hread hheader).1.mp (exists_eq_ok_of_isOk (by decide +kernel))
  · exact ((hrefused hheader).2.2 _).mp (by decide +kernel)

end BenchTables.Measurement
