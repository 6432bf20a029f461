import BenchTables.Measurement.Reader
import BenchTables.Proofs.Outcome

/-!
# Reading one record

A record is a measurement when the first column of each required name has a cell of its kind, and
the measurement has the value of each cell in the field of its column (`ofRecord_eq_ok_iff`).  Else
it is refused for the first cell, in the order in which cells are read, that has not
(`ofRecord_eq_error_iff`).
-/

namespace BenchTables

variable {α : Type} {header cells : List String} {column text : String}

/-! ## The cell of a column -/

/-- A text is the cell of the first column of a name. -/
def IsCellOf (header cells : List String) (column text : String) : Prop :=
  ∃ i : ℕ, header[i]? = some column ∧ (∀ j < i, header[j]? ≠ some column) ∧ cells[i]? = some text

/-- In a record as long as the header the cell of a column is the one that is looked up. -/
theorem isCellOf_iff (hlength : cells.length = header.length) (hcolumn : column ∈ header) :
    IsCellOf header cells column text ↔ cellUnder header cells column = text := by
  have hlt : header.idxOf column < header.length := List.idxOf_lt_length_iff.mpr hcolumn
  have hfound : header[header.idxOf column]? = some column := List.getElem?_idxOf hcolumn
  have hfirst : ∀ j < header.idxOf column, header[j]? ≠ some column := by
    intro j hj hsame
    obtain ⟨hj', hsame⟩ := List.getElem?_eq_some_iff.mp hsame
    exact absurd hsame (by simpa using List.not_of_lt_findIdx hj)
  have hcell : cells[header.idxOf column]? = some (cellUnder header cells column) := by
    rw [cellUnder, List.getD_eq_getElem?_getD, List.getElem?_eq_getElem (hlength ▸ hlt)]
    rfl
  constructor
  · rintro ⟨i, hi, hbefore, htext⟩
    obtain rfl : i = header.idxOf column := by
      rcases Nat.lt_trichotomy i (header.idxOf column) with hlt | heq | hgt
      · exact absurd hi (hfirst i hlt)
      · exact heq
      · exact absurd hfound (hbefore _ hgt)
    exact Option.some.inj (hcell.symm.trans htext)
  · rintro rfl
    exact ⟨_, hfound, hfirst, hcell⟩

/-! ## Cells -/

/-- A text is a finite decimal number, and this is its double. -/
def IsQuantity (text : String) (x : Float) : Prop :=
  Decimal.readFloat text.toList = .ok x ∧ x.isFinite

theorem readQuantity?_eq_some_iff {x : Float} :
    readQuantity? text = some x ↔ IsQuantity text x := by
  unfold readQuantity? IsQuantity
  cases Decimal.readFloat text.toList with
  | error fault => exact ⟨nofun, nofun⟩
  | ok y =>
    dsimp only
    split
    next hfinite =>
      constructor
      · intro h
        cases h
        exact ⟨rfl, hfinite⟩
      · rintro ⟨h, -⟩
        cases h
        rfl
    next hinfinite =>
      constructor
      · intro h
        cases h
      · rintro ⟨h, hfinite⟩
        cases h
        exact absurd hfinite hinfinite

/-- What a cell has to hold. -/
inductive CellKind where
  | quantity
  | count
  | flag
deriving DecidableEq

namespace CellKind

/-- A text can be read as what it has to hold. -/
def Admits : CellKind → String → Prop
  | quantity, text => ∃ x, IsQuantity text x
  | count, text => ∃ n, readCount? text = some n
  | flag, text => ∃ b, readFlag? text = some b

/-- What is said of a text that cannot be read. -/
def expectation : CellKind → String
  | quantity => "expected a number"
  | count => "expected a non-negative integer"
  | flag => "expected true or false"

end CellKind

namespace Measurement

variable {record : Csv.Record} {m : Measurement} {error : TableError} {kind : CellKind}
  {expectation : String} {read : String → Option α} {a : α}

/-- The required columns in the order in which the cells of a record are read. -/
def readingOrder : List (String × CellKind) :=
  Counter.all.map (fun c => (c.column, .quantity)) ++
    Phase.all.map (fun p => (p.column, .quantity)) ++
    [("db_size", .count), ("key_length", .count), ("value_length", .count), ("malicious", .flag),
      ("rate", .count), ("multi_client", .flag), ("num_threads", .count)]

/-- Each required column is read once. -/
theorem readingOrder_perm : (readingOrder.map Prod.fst).Perm requiredColumns := by
  decide +kernel

/-- A measurement has in each of its fields the value of the cell of its column. -/
structure IsRecordOf (header cells : List String) (m : Measurement) : Prop where
  counter : ∀ c, ∃ text, IsCellOf header cells c.column text ∧ IsQuantity text (m.counter c)
  phase : ∀ p, ∃ text, IsCellOf header cells p.column text ∧
    IsQuantity text (PerPhase.value m.latency p)
  dbSize : ∃ text, IsCellOf header cells "db_size" text ∧ readCount? text = some m.dbSize
  keyLength : ∃ text, IsCellOf header cells "key_length" text ∧ readCount? text = some m.keyLength
  valueLength : ∃ text, IsCellOf header cells "value_length" text ∧
    readCount? text = some m.valueLength
  malicious : ∃ text, IsCellOf header cells "malicious" text ∧ readFlag? text = some m.malicious
  rate : ∃ text, IsCellOf header cells "rate" text ∧ readCount? text = some m.rate
  multiClient : ∃ text, IsCellOf header cells "multi_client" text ∧
    readFlag? text = some m.multiClient
  threads : ∃ text, IsCellOf header cells "num_threads" text ∧ readCount? text = some m.threads

/-- The first cell in reading order that cannot be read. -/
def IsFirstBadCell (header cells : List String) (column : String) (kind : CellKind)
    (text : String) : Prop :=
  ∃ before after, readingOrder = before ++ (column, kind) :: after ∧
    (∀ other ∈ before, ∃ text, IsCellOf header cells other.1 text ∧ other.2.Admits text) ∧
    IsCellOf header cells column text ∧ ¬kind.Admits text

theorem readCell_eq_ok_iff : readCell header record read expectation column = .ok a ↔
    read (cellUnder header record.cells column) = some a := by
  unfold readCell
  dsimp only
  cases read (cellUnder header record.cells column) with
  | none => exact ⟨nofun, nofun⟩
  | some value => simp

theorem readCell_eq_error_iff : readCell header record read expectation column = .error error ↔
    read (cellUnder header record.cells column) = none ∧
      error = .invalidValue record.position.line column (cellUnder header record.cells column)
        expectation := by
  unfold readCell
  dsimp only
  cases read (cellUnder header record.cells column) with
  | none => simp [eq_comm]
  | some value => simp

/-- The error of the cell of a column, if it cannot be read. -/
def cellError? (header : List String) (record : Csv.Record) (cell : String × CellKind) :
    Option TableError :=
  match cell.2 with
  | .quantity => errorOf? (readNumber header record cell.1)
  | .count => errorOf? (readInteger header record cell.1)
  | .flag => errorOf? (readBool header record cell.1)

theorem cellError?_eq_some_iff {cell : String × CellKind} :
    cellError? header record cell = some error ↔
      ¬cell.2.Admits (cellUnder header record.cells cell.1) ∧
        error = .invalidValue record.position.line cell.1
          (cellUnder header record.cells cell.1) cell.2.expectation := by
  obtain ⟨column, kind⟩ := cell
  cases kind <;>
    simp only [cellError?, errorOf?_eq_some_iff, readNumber, readInteger, readBool,
      readCell_eq_error_iff, CellKind.Admits, CellKind.expectation, ← readQuantity?_eq_some_iff,
      ← Option.isSome_iff_exists, Option.not_isSome_iff_eq_none]

theorem cellError?_eq_none_iff {cell : String × CellKind} :
    cellError? header record cell = none ↔
      cell.2.Admits (cellUnder header record.cells cell.1) := by
  rw [← not_iff_not, ← ne_eq, Option.ne_none_iff_exists']
  simp only [cellError?_eq_some_iff, exists_and_left, exists_eq, and_true]

/-- Cells are read in order, and a record is refused for the first that cannot be read. -/
theorem errorOf?_ofRecord :
    errorOf? (ofRecord header record) = readingOrder.findSome? (cellError? header record) := by
  -- No step depends on the values that were read before, so the first error decides.
  have hchain : errorOf? (ofRecord header record) = _ :=
    errorOf?_bind fun _ => errorOf?_bind fun _ => errorOf?_bind fun _ => errorOf?_bind fun _ =>
      errorOf?_bind fun _ => errorOf?_bind fun _ => errorOf?_bind fun _ => errorOf?_bind fun _ =>
        errorOf?_bind fun _ => (rfl : errorOf? (pure _) = none)
  have hcons : ∀ cell rest, (cell :: rest).findSome? (cellError? header record) =
      (cellError? header record cell).or (rest.findSome? (cellError? header record)) := by
    intro cell rest
    rw [List.findSome?_cons]
    cases cellError? header record cell with
    | none => rfl
    | some error => rfl
  rw [hchain, errorOf?_mapM_vector, errorOf?_mapM_vector, readingOrder, List.findSome?_append,
    List.findSome?_append, List.findSome?_map, List.findSome?_map, Option.or_assoc]
  simp only [hcons, List.findSome?_nil]
  rfl

theorem counterColumn_mem (c : Counter) : c.column ∈ requiredColumns :=
  List.mem_append_left _ (List.mem_append_right _ (List.mem_map_of_mem (Counter.mem_all c)))

theorem phaseColumn_mem (p : Phase) : p.column ∈ requiredColumns :=
  List.mem_append_right _ (List.mem_map_of_mem (Phase.mem_all p))

section Record

variable (hlength : record.cells.length = header.length)
  (hheader : ∀ column ∈ requiredColumns, column ∈ header)

include hlength hheader

theorem readCell_eq_ok_iff_isCellOf (hcolumn : column ∈ requiredColumns) :
    readCell header record read expectation column = .ok a ↔
      ∃ text, IsCellOf header record.cells column text ∧ read text = some a := by
  simp only [isCellOf_iff hlength (hheader column hcolumn), readCell_eq_ok_iff, exists_eq_left']

theorem readNumber_eq_ok_iff {x : Float} (hcolumn : column ∈ requiredColumns) :
    readNumber header record column = .ok x ↔
      ∃ text, IsCellOf header record.cells column text ∧ IsQuantity text x := by
  simp only [← readQuantity?_eq_some_iff]
  exact readCell_eq_ok_iff_isCellOf hlength hheader hcolumn

theorem readInteger_eq_ok_iff {n : UInt64} (hcolumn : column ∈ requiredColumns) :
    readInteger header record column = .ok n ↔
      ∃ text, IsCellOf header record.cells column text ∧ readCount? text = some n :=
  readCell_eq_ok_iff_isCellOf hlength hheader hcolumn

theorem readBool_eq_ok_iff {b : Bool} (hcolumn : column ∈ requiredColumns) :
    readBool header record column = .ok b ↔
      ∃ text, IsCellOf header record.cells column text ∧ readFlag? text = some b :=
  readCell_eq_ok_iff_isCellOf hlength hheader hcolumn

theorem isRecordOf_of_ofRecord (h : ofRecord header record = .ok m) :
    IsRecordOf header record.cells m := by
  unfold ofRecord at h
  obtain ⟨bandwidth, hbandwidth, h⟩ := bind_eq_ok_iff.mp h
  obtain ⟨latency, hlatency, h⟩ := bind_eq_ok_iff.mp h
  obtain ⟨dbSize, hdbSize, h⟩ := bind_eq_ok_iff.mp h
  obtain ⟨keyLength, hkeyLength, h⟩ := bind_eq_ok_iff.mp h
  obtain ⟨valueLength, hvalueLength, h⟩ := bind_eq_ok_iff.mp h
  obtain ⟨malicious, hmalicious, h⟩ := bind_eq_ok_iff.mp h
  obtain ⟨rate, hrate, h⟩ := bind_eq_ok_iff.mp h
  obtain ⟨multiClient, hmultiClient, h⟩ := bind_eq_ok_iff.mp h
  obtain ⟨threads, hthreads, h⟩ := bind_eq_ok_iff.mp h
  cases h
  constructor
  · intro c
    have hc : readNumber header record Counter.ordered[c.index].column = .ok bandwidth[c.index] :=
      getElem_of_mapM_eq_ok hbandwidth c.index.isLt
    rw [Counter.getElem_ordered_index] at hc
    exact (readNumber_eq_ok_iff hlength hheader (counterColumn_mem c)).mp hc
  · intro p
    have hp : readNumber header record Phase.ordered[p.index].column = .ok latency[p.index] :=
      getElem_of_mapM_eq_ok hlatency p.index.isLt
    rw [Phase.getElem_ordered_index] at hp
    exact (readNumber_eq_ok_iff hlength hheader (phaseColumn_mem p)).mp hp
  · exact (readInteger_eq_ok_iff hlength hheader (by decide)).mp hdbSize
  · exact (readInteger_eq_ok_iff hlength hheader (by decide)).mp hkeyLength
  · exact (readInteger_eq_ok_iff hlength hheader (by decide)).mp hvalueLength
  · exact (readBool_eq_ok_iff hlength hheader (by decide)).mp hmalicious
  · exact (readInteger_eq_ok_iff hlength hheader (by decide)).mp hrate
  · exact (readBool_eq_ok_iff hlength hheader (by decide)).mp hmultiClient
  · exact (readInteger_eq_ok_iff hlength hheader (by decide)).mp hthreads

theorem ofRecord_of_isRecordOf (h : IsRecordOf header record.cells m) :
    ofRecord header record = .ok m := by
  have hbandwidth : (Counter.ordered.mapM fun c => readNumber header record c.column) =
      .ok m.bandwidth := by
    apply mapM_vector_eq_ok
    intro i hi
    rw [readNumber_eq_ok_iff hlength hheader (counterColumn_mem _)]
    have hcounter := h.counter Counter.ordered[i]
    have hvalue : m.bandwidth.value Counter.ordered[i] = m.bandwidth[i] :=
      PerCounter.value_ordered _ ⟨i, hi⟩
    rwa [Measurement.counter, hvalue] at hcounter
  have hlatency : (Phase.ordered.mapM fun p => readNumber header record p.column) =
      .ok m.latency := by
    apply mapM_vector_eq_ok
    intro i hi
    rw [readNumber_eq_ok_iff hlength hheader (phaseColumn_mem _)]
    have hphase := h.phase Phase.ordered[i]
    have hvalue : m.latency.value Phase.ordered[i] = m.latency[i] :=
      PerPhase.value_ordered _ ⟨i, hi⟩
    rwa [hvalue] at hphase
  have hdbSize := (readInteger_eq_ok_iff hlength hheader (by decide)).mpr h.dbSize
  have hkeyLength := (readInteger_eq_ok_iff hlength hheader (by decide)).mpr h.keyLength
  have hvalueLength := (readInteger_eq_ok_iff hlength hheader (by decide)).mpr h.valueLength
  have hmalicious := (readBool_eq_ok_iff hlength hheader (by decide)).mpr h.malicious
  have hrate := (readInteger_eq_ok_iff hlength hheader (by decide)).mpr h.rate
  have hmultiClient := (readBool_eq_ok_iff hlength hheader (by decide)).mpr h.multiClient
  have hthreads := (readInteger_eq_ok_iff hlength hheader (by decide)).mpr h.threads
  unfold ofRecord
  rw [hbandwidth, ok_bind, hlatency, ok_bind, hdbSize, ok_bind, hkeyLength, ok_bind, hvalueLength,
    ok_bind, hmalicious, ok_bind, hrate, ok_bind, hmultiClient, ok_bind, hthreads, ok_bind]
  rfl

theorem ofRecord_eq_ok_iff : ofRecord header record = .ok m ↔ IsRecordOf header record.cells m :=
  ⟨isRecordOf_of_ofRecord hlength hheader, ofRecord_of_isRecordOf hlength hheader⟩

theorem ofRecord_eq_error_iff : ofRecord header record = .error error ↔
    ∃ column kind text, IsFirstBadCell header record.cells column kind text ∧
      error = .invalidValue record.position.line column text kind.expectation := by
  have hcell : ∀ cell ∈ readingOrder, ∀ text, IsCellOf header record.cells cell.1 text ↔
      cellUnder header record.cells cell.1 = text := by
    intro cell hmem text
    apply isCellOf_iff hlength (hheader _ _)
    exact readingOrder_perm.mem_iff.mp (List.mem_map_of_mem hmem)
  rw [← errorOf?_eq_some_iff, errorOf?_ofRecord, List.findSome?_eq_some_iff]
  simp only [cellError?_eq_some_iff, cellError?_eq_none_iff]
  constructor
  · rintro ⟨before, ⟨column, kind⟩, after, horder, ⟨hbad, rfl⟩, hbefore⟩
    rw [horder] at hcell
    refine ⟨column, kind, _, ⟨before, after, horder, fun other hother => ?_, ?_, hbad⟩, rfl⟩
    · exact ⟨_, (hcell other (by simp [hother]) _).mpr rfl, hbefore other hother⟩
    · exact (hcell (column, kind) (by simp) _).mpr rfl
  · rintro ⟨column, kind, text, ⟨before, after, horder, hbefore, htext, hbad⟩, rfl⟩
    rw [horder] at hcell
    obtain rfl := (hcell (column, kind) (by simp) text).mp htext
    refine ⟨before, (column, kind), after, horder, ⟨hbad, rfl⟩, fun other hother => ?_⟩
    obtain ⟨otherText, hotherText, hadmits⟩ := hbefore other hother
    rwa [← (hcell other (by simp [hother]) _).mp hotherText] at hadmits

end Record

end Measurement

end BenchTables
