import BenchTables.Csv.Document
import BenchTables.Proofs.Text.Decoding
import Mathlib.Data.List.Forall2

/-!
# Which records are sound

A raw record becomes a record when it has as many cells as the header and all of them are texts,
and else it is the fault of its number of cells or of the first cell that is no text:
`checkRecord_eq_ok_iff` and `checkRecord_eq_error_iff`.
-/

namespace BenchTables.Csv

/-- The bytes of a cell are those of a text, and the text of the cell is that text without the
white space at its ends. -/
def CellText (bytes : List UInt8) (text : String) : Prop :=
  ∃ whole, bytes = Text.encode whole ∧ Text.trim whole = text

/-- The first of the cells whose bytes are those of no text, and the offset at which they stop to
be, counted from the first byte that is not white space. -/
def FirstNoText (cells : List (List UInt8)) (field offset : ℕ) : Prop :=
  ∃ before bytes after, cells = before ++ bytes :: after ∧ field = before.length ∧
    (∀ other ∈ before, ∃ text, CellText other text) ∧
    Text.StopsAt (Text.strip Text.isBlankByte bytes) offset

/-- The table of a header and of records as they are cut from bytes. -/
def Document.checked (header : List String) (raws : List RawRecord) : Document :=
  ⟨header, raws.map (checkRecord header.length)⟩

variable {p : Position} {field offset width : ℕ} {bytes : List UInt8} {cells : List (List UInt8)}
  {text : String} {texts header : List String} {fault : Fault} {raw head : RawRecord}
  {raws : List RawRecord} {record : Record}

/-! ## Cells -/

theorem decode_eq_ok_iff_cellText :
    (∃ whole, Text.decode bytes = .ok whole ∧ Text.trim whole = text) ↔ CellText bytes text := by
  simp only [Text.decode_eq_ok_iff, CellText]

theorem exists_cellText_iff :
    (∃ text, CellText bytes text) ↔
      ∃ whole, Text.decode (Text.strip Text.isBlankByte bytes) = .ok whole := by
  constructor
  · rintro ⟨text, htext⟩
    obtain ⟨whole, hwhole, -⟩ := Text.decode_strip_eq_ok_iff.mpr htext
    exact ⟨whole, hwhole⟩
  · rintro ⟨whole, hwhole⟩
    exact ⟨Text.trim whole, Text.decode_strip_eq_ok_iff.mp ⟨whole, hwhole, rfl⟩⟩

theorem decodeCells_cons_eq_ok_iff {cell : List UInt8} :
    decodeCells p field (cell :: cells) = .ok texts ↔
      ∃ whole others, Text.decode cell = .ok whole ∧ decodeCells p (field + 1) cells = .ok others ∧
        texts = Text.trim whole :: others := by
  rw [decodeCells]
  cases Text.decode cell with
  | error offset => exact ⟨nofun, nofun⟩
  | ok whole =>
    dsimp only
    cases decodeCells p (field + 1) cells with
    | error fault => exact ⟨nofun, nofun⟩
    | ok others => simp [Except.map, eq_comm]

/-- The first cell is at fault, or it is a text and one after it is. -/
theorem decodeCells_cons_eq_error_iff {cell : List UInt8} :
    decodeCells p field (cell :: cells) = .error fault ↔
      (∃ offset, Text.decode cell = .error offset ∧ fault = .invalidUtf8 p field offset) ∨
        (∃ whole, Text.decode cell = .ok whole) ∧ decodeCells p (field + 1) cells = .error fault := by
  rw [decodeCells]
  cases Text.decode cell with
  | error offset => simp [eq_comm]
  | ok whole =>
    dsimp only
    cases decodeCells p (field + 1) cells with
    | error other => simp [Except.map]
    | ok others => simp [Except.map]

/-- Cells decode when each of them does, whatever part of its bytes is decoded. -/
theorem decodeCells_map_eq_ok_iff {part : List UInt8 → List UInt8}
    (hpart : ∀ bytes text,
      (∃ whole, Text.decode (part bytes) = .ok whole ∧ Text.trim whole = text) ↔
        CellText bytes text) :
    decodeCells p field (cells.map part) = .ok texts ↔ List.Forall₂ CellText cells texts := by
  induction cells generalizing field texts with
  | nil =>
    rw [List.forall₂_nil_left_iff]
    exact ⟨fun h => (Except.ok.inj h).symm, fun h => h ▸ rfl⟩
  | cons cell rest ih =>
    rw [List.map_cons, decodeCells_cons_eq_ok_iff, List.forall₂_cons_left_iff]
    simp only [ih, ← hpart]
    constructor
    · rintro ⟨whole, others, hwhole, hothers, rfl⟩
      exact ⟨_, others, ⟨whole, hwhole, rfl⟩, hothers, rfl⟩
    · rintro ⟨_, others, ⟨whole, hwhole, rfl⟩, hothers, rfl⟩
      exact ⟨whole, others, hwhole, hothers, rfl⟩

theorem decodeCells_eq_ok_iff :
    decodeCells p field cells = .ok texts ↔ List.Forall₂ CellText cells texts := by
  have hpart : decodeCells p field (cells.map id) = .ok texts ↔ List.Forall₂ CellText cells texts :=
    decodeCells_map_eq_ok_iff fun _ _ => decode_eq_ok_iff_cellText
  rwa [List.map_id] at hpart

theorem decodeCells_strip_eq_ok_iff (p : Position) (field : ℕ) :
    decodeCells p field (cells.map (Text.strip Text.isBlankByte)) = .ok texts ↔
      List.Forall₂ CellText cells texts :=
  decodeCells_map_eq_ok_iff fun _ _ => Text.decode_strip_eq_ok_iff

theorem firstNoText_cons_iff {cell : List UInt8} :
    FirstNoText (cell :: cells) field offset ↔
      field = 0 ∧ Text.StopsAt (Text.strip Text.isBlankByte cell) offset ∨
        (∃ text, CellText cell text) ∧ ∃ later, field = later + 1 ∧
          FirstNoText cells later offset := by
  constructor
  · rintro ⟨before, bytes, after, hcells, rfl, hbefore, hstop⟩
    cases before with
    | nil =>
      cases hcells
      exact Or.inl ⟨rfl, hstop⟩
    | cons first before =>
      cases hcells
      obtain ⟨hfirst, hbefore⟩ := List.forall_mem_cons.mp hbefore
      exact Or.inr ⟨hfirst, before.length, rfl, before, bytes, after, rfl, rfl, hbefore, hstop⟩
  · rintro (⟨rfl, hstop⟩ | ⟨hcell, later, rfl, before, bytes, after, rfl, rfl, hbefore, hstop⟩)
    · exact ⟨[], cell, cells, rfl, rfl, List.forall_mem_nil _, hstop⟩
    · exact ⟨cell :: before, bytes, after, rfl, rfl, List.forall_mem_cons.mpr ⟨hcell, hbefore⟩,
        hstop⟩

/-- The cells before the first one to be decoded count as well in the place of a fault. -/
theorem decodeCells_strip_eq_error_iff (p : Position) (field : ℕ) :
    decodeCells p field (cells.map (Text.strip Text.isBlankByte)) = .error fault ↔
      ∃ skipped offset, FirstNoText cells skipped offset ∧
        fault = .invalidUtf8 p (field + skipped) offset := by
  induction cells generalizing field with
  | nil =>
    constructor
    · intro h
      cases h
    · rintro ⟨skipped, offset, ⟨before, bytes, after, hcells, -⟩, -⟩
      exact absurd hcells.symm (by simp)
  | cons cell rest ih =>
    have hindex : ∀ later, field + 1 + later = field + (later + 1) := fun later => by omega
    rw [List.map_cons, decodeCells_cons_eq_error_iff]
    simp only [firstNoText_cons_iff, exists_cellText_iff, Text.decode_eq_error_iff, ih, hindex]
    constructor
    · rintro (⟨offset, hstop, hfault⟩ | ⟨hcell, later, offset, hfirst, hfault⟩)
      · exact ⟨0, offset, Or.inl ⟨rfl, hstop⟩, hfault⟩
      · exact ⟨later + 1, offset, Or.inr ⟨hcell, later, rfl, hfirst⟩, hfault⟩
    · rintro ⟨skipped, offset, ⟨rfl, hstop⟩ | ⟨hcell, later, rfl, hfirst⟩, hfault⟩
      · exact Or.inl ⟨offset, hstop, hfault⟩
      · exact Or.inr ⟨hcell, later, offset, hfirst, hfault⟩

/-! ## Records -/

theorem checkRecord_eq_ok_iff : checkRecord width raw = .ok record ↔
    raw.cells.length = width ∧ record.position = raw.start ∧
      List.Forall₂ CellText raw.cells record.cells := by
  rw [checkRecord]
  split
  next hwidth =>
    rw [← decodeCells_strip_eq_ok_iff raw.start 0]
    cases decodeCells raw.start 0 (raw.cells.map (Text.strip Text.isBlankByte)) with
    | error fault => exact ⟨nofun, nofun⟩
    | ok texts =>
      constructor
      · intro h
        cases h
        exact ⟨hwidth, rfl, rfl⟩
      · rintro ⟨-, hposition, hcells⟩
        cases record
        cases hposition
        cases hcells
        rfl
  next hwidth => exact ⟨nofun, fun ⟨h, _⟩ => absurd h hwidth⟩

theorem checkRecord_eq_error_iff : checkRecord width raw = .error fault ↔
    raw.cells.length ≠ width ∧ fault = .unequalLengths raw.start width raw.cells.length ∨
      raw.cells.length = width ∧ ∃ field offset, FirstNoText raw.cells field offset ∧
        fault = .invalidUtf8 raw.start field offset := by
  rw [checkRecord]
  split
  next hwidth =>
    have hdecode : decodeCells raw.start 0 (raw.cells.map (Text.strip Text.isBlankByte)) =
        .error fault ↔ ∃ field offset, FirstNoText raw.cells field offset ∧
          fault = .invalidUtf8 raw.start field offset := by
      rw [decodeCells_strip_eq_error_iff]
      simp only [Nat.zero_add]
    rw [← hdecode]
    cases decodeCells raw.start 0 (raw.cells.map (Text.strip Text.isBlankByte)) with
    | ok texts => exact ⟨nofun, fun h => h.elim (fun h => absurd hwidth h.1) fun h => nomatch h.2⟩
    | error other =>
      constructor
      · intro h
        cases h
        exact Or.inr ⟨hwidth, rfl⟩
      · rintro (⟨h, -⟩ | ⟨-, h⟩)
        · exact absurd hwidth h
        · cases h
          rfl
  next hwidth =>
    constructor
    · intro h
      cases h
      exact Or.inl ⟨hwidth, rfl⟩
    · rintro (⟨-, rfl⟩ | ⟨h, -⟩)
      · rfl
      · exact absurd h hwidth

/-- The document that bytes are is the table of their first record and of the others. -/
theorem Document.read_eq_checked {w : List UInt8} (hcut : cut w = head :: raws)
    (hheader : List.Forall₂ CellText head.cells header) :
    Document.read w = .ok (Document.checked header raws) := by
  have hdecode : decodeCells head.start 0 head.cells = .ok header :=
    decodeCells_eq_ok_iff.mpr hheader
  rw [Document.read, hcut, Document.ofRaw, hdecode, hheader.length_eq]
  rfl

end BenchTables.Csv
