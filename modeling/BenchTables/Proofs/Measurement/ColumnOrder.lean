import BenchTables.Proofs.Measurement.Acceptance

/-!
# The order of columns

A measurement table is read by the names of its columns.  Its columns can stand in any order and
among others that are not required, and it is still read as the same measurements or refused for the
same cell: `column_order_irrelevant`.
-/

namespace BenchTables.Measurement

/-- A column of a table, with its cell in the record at each index. -/
structure Column where
  name : String
  cell : ℕ → String

/-- The records of columns, at the positions. -/
def recordsOf (positions : List Csv.Position) (columns : List Column) : List Csv.Record :=
  positions.mapIdx fun i p => ⟨p, columns.map (·.cell i)⟩

/-- The table of columns, with records at the positions. -/
def ofColumns (positions : List Csv.Position) (columns : List Column) : Csv.Document :=
  ⟨columns.map (·.name), (recordsOf positions columns).map .ok⟩

/-- The columns of a header and the records under it. -/
def columnsOf (header : List String) (records : List Csv.Record) : List Column :=
  header.mapIdx fun j name => ⟨name, fun i => (records[i]?.map (·.cells.getD j "")).getD ""⟩

/-- Columns in another order and with extra ones among them, which are not required and do not fill
any of the first `n` records that were empty. -/
structure IsRearranged (n : ℕ) (columns extra columns' : List Column) : Prop where
  perm : columns'.Perm (columns ++ extra)
  name : ∀ column ∈ extra, column.name ∉ requiredColumns
  blank : ∀ i < n, (∀ column ∈ columns, column.cell i = "") → ∀ column ∈ extra, column.cell i = ""

variable {source : String} {header header' : List String} {records : List Csv.Record}
  {record record' : Csv.Record} {positions : List Csv.Position}
  {columns extra columns' : List Column} {n i : ℕ} {error : TableError}

/-- A table is that of its columns. -/
theorem ofColumns_columnsOf (hlength : ∀ record ∈ records, record.cells.length = header.length) :
    ofColumns (records.map (·.position)) (columnsOf header records) =
      ⟨header, records.map .ok⟩ := by
  have hnames : (columnsOf header records).map (·.name) = header := by
    apply List.ext_getElem
    · simp [columnsOf]
    · intro j _ _
      simp [columnsOf]
  have hrecords : recordsOf (records.map (·.position)) (columnsOf header records) = records := by
    apply List.ext_getElem
    · simp [recordsOf]
    · intro i _ hi
      have hwidth := hlength records[i] (List.getElem_mem hi)
      have hcells : (columnsOf header records).map (·.cell i) = records[i].cells := by
        apply List.ext_getElem
        · simp [columnsOf, hwidth]
        · intro j _ hj
          simp [columnsOf, hi, hj]
      simp [recordsOf, hcells]
  rw [ofColumns, hnames, hrecords]

/-! ## Looking up a cell -/

/-- Under a name that one column has stands the cell of that column. -/
theorem cellUnder_of_mem {column : Column} (hmem : column ∈ columns)
    (hcount : (columns.map (·.name)).count column.name = 1) (i : ℕ) :
    cellUnder (columns.map (·.name)) (columns.map (·.cell i)) column.name = column.cell i := by
  induction columns with
  | nil => cases hmem
  | cons first rest ih =>
    rw [List.map_cons, List.count_cons] at hcount
    by_cases hname : first.name = column.name
    · -- Another column of the name would be a second one.
      rw [if_pos (beq_iff_eq.mpr hname)] at hcount
      have hnone : column ∉ rest := by
        intro hrest
        have hpos := List.count_pos_iff.mpr (List.mem_map_of_mem hrest (f := (·.name)))
        omega
      obtain rfl := (List.mem_cons.mp hmem).resolve_right hnone
      simp [cellUnder]
    · rw [if_neg (by simpa using hname), Nat.add_zero] at hcount
      have hrest : column ∈ rest :=
        (List.mem_cons.mp hmem).resolve_left fun h => hname (h ▸ rfl)
      rw [← ih hrest hcount]
      simp [cellUnder, List.idxOf_cons_ne _ hname]

namespace IsRearranged

variable (h : IsRearranged n columns extra columns')
  (hcount : ∀ name ∈ requiredColumns, (columns.map (·.name)).count name = 1)

include h hcount

theorem count_eq_one {name : String} (hname : name ∈ requiredColumns) :
    (columns'.map (·.name)).count name = 1 := by
  have hextra : (extra.map (·.name)).count name = 0 := by
    rw [List.count_eq_zero]
    intro hmem
    obtain ⟨column, hcolumn, rfl⟩ := List.mem_map.mp hmem
    exact h.name column hcolumn hname
  rw [(h.perm.map (·.name)).count_eq, List.map_append, List.count_append, hcount name hname, hextra]

theorem cellUnder_eq {name : String} (hname : name ∈ requiredColumns) (i : ℕ) :
    cellUnder (columns'.map (·.name)) (columns'.map (·.cell i)) name =
      cellUnder (columns.map (·.name)) (columns.map (·.cell i)) name := by
  have hmem : name ∈ columns.map (·.name) := by
    rw [← List.count_pos_iff, hcount name hname]
    exact Nat.one_pos
  obtain ⟨column, hcolumn, rfl⟩ := List.mem_map.mp hmem
  have hcolumn' : column ∈ columns' := h.perm.mem_iff.mpr (List.mem_append_left _ hcolumn)
  rw [cellUnder_of_mem hcolumn (hcount _ hname),
    cellUnder_of_mem hcolumn' (h.count_eq_one hcount hname)]

omit hcount in
theorem blank_iff (hi : i < n) :
    (∀ column ∈ columns', column.cell i = "") ↔ ∀ column ∈ columns, column.cell i = "" := by
  have hmem : ∀ column, column ∈ columns' ↔ column ∈ columns ∨ column ∈ extra := fun column =>
    h.perm.mem_iff.trans List.mem_append
  simp only [hmem]
  constructor
  · intro hall column hcolumn
    exact hall column (Or.inl hcolumn)
  · rintro hall column (hcolumn | hcolumn)
    · exact hall column hcolumn
    · exact h.blank i hi hall column hcolumn

end IsRearranged

/-! ## Reading -/

theorem ofRecord_congr (hposition : record'.position = record.position)
    (hcells : ∀ column ∈ requiredColumns,
      cellUnder header' record'.cells column = cellUnder header record.cells column) :
    ofRecord header' record' = ofRecord header record := by
  have hread : ∀ {α : Type} (read : String → Option α) (expectation : String),
      ∀ column ∈ requiredColumns, readCell header' record' read expectation column =
        readCell header record read expectation column := by
    intro α read expectation column hcolumn
    rw [readCell, readCell, hcells column hcolumn, hposition]
  have hcounters : (fun c : Counter => readNumber header' record' c.column) =
      fun c => readNumber header record c.column :=
    funext fun c => hread _ _ _ (counterColumn_mem c)
  have hphases : (fun p : Phase => readNumber header' record' p.column) =
      fun p => readNumber header record p.column :=
    funext fun p => hread _ _ _ (phaseColumn_mem p)
  unfold ofRecord readInteger readBool
  rw [hcounters, hphases]
  simp only [hread _ _ "db_size" (by decide), hread _ _ "key_length" (by decide),
    hread _ _ "value_length" (by decide), hread _ _ "malicious" (by decide),
    hread _ _ "rate" (by decide), hread _ _ "multi_client" (by decide),
    hread _ _ "num_threads" (by decide)]

/-- Records that are empty together and read alike one by one are read alike together. -/
theorem ofRecords_congr {records records' : List Csv.Record}
    (h : List.Forall₂ (fun record' record => (isBlankRecord record' ↔ isBlankRecord record) ∧
      ofRecord header' record' = ofRecord header record) records' records) :
    ofRecords header' (records'.map .ok) = ofRecords header (records.map .ok) := by
  induction h with
  | nil => rfl
  | cons hfirst _ ih =>
    obtain ⟨hblank, hread⟩ := hfirst
    rw [List.map_cons, List.map_cons, ofRecords, ofRecords, ih, hread]
    simp only [hblank]

/-- Records that are texts are refused for nothing but one of their cells. -/
theorem invalidValue_of_ofRecords (h : ofRecords header (records.map .ok) = .error error) :
    ∃ line column value expectation, error = .invalidValue line column value expectation := by
  induction records with
  | nil => cases h
  | cons record rest ih =>
    rw [List.map_cons, ofRecords] at h
    split at h
    · exact ih h
    cases hread : ofRecord header record with
    | error other =>
      rw [hread] at h
      cases h
      have hfirst := errorOf?_eq_some_iff.mpr hread
      rw [errorOf?_ofRecord] at hfirst
      obtain ⟨cell, -, hcell⟩ := List.exists_of_findSome?_eq_some hfirst
      exact ⟨_, _, _, _, (cellError?_eq_some_iff.mp hcell).2⟩
    | ok m =>
      rw [hread, ok_bind] at h
      cases hrest : ofRecords header (rest.map .ok) with
      | error other =>
        rw [hrest] at h
        cases h
        exact ih hrest
      | ok rows =>
        rw [hrest] at h
        cases h

theorem mem_of_count {names : List String} (h : ∀ name ∈ requiredColumns, names.count name = 1) :
    ∀ name ∈ requiredColumns, name ∈ names := by
  intro name hname
  rw [← List.count_pos_iff, h name hname]
  exact Nat.one_pos

theorem ofDocument_rearranged (h : IsRearranged positions.length columns extra columns')
    (hcount : ∀ name ∈ requiredColumns, (columns.map (·.name)).count name = 1) :
    ofDocument source (ofColumns positions columns') =
      ofDocument source (ofColumns positions columns) := by
  have hcount' : ∀ name ∈ requiredColumns, (columns'.map (·.name)).count name = 1 :=
    fun name hname => h.count_eq_one hcount hname
  rw [ofColumns, ofColumns, ofDocument_of_complete (mem_of_count hcount),
    ofDocument_of_complete (mem_of_count hcount')]
  apply ofRecords_congr
  -- Record by record the cells are moved, and the cell under a required name is the same.
  rw [List.forall₂_iff_get]
  refine ⟨by simp [recordsOf], fun i hi _ => ?_⟩
  have hi' : i < positions.length := by simpa [recordsOf] using hi
  simp only [recordsOf, List.get_eq_getElem, List.getElem_mapIdx, isBlankRecord_iff,
    List.forall_mem_map]
  exact ⟨h.blank_iff hi', ofRecord_congr rfl fun name hname => h.cellUnder_eq hcount hname i⟩

/-- A table with one column of each required name is read as the same measurements when its columns
are put in another order and others that are not required are put among them, or it is refused for
the same cell, with the same line and message.  So are the bytes of such tables. -/
theorem column_order_irrelevant
    (hlength : ∀ record ∈ records, record.cells.length = header.length)
    (hcount : ∀ name ∈ requiredColumns, header.count name = 1)
    (h : IsRearranged records.length (columnsOf header records) extra columns') (source : String) :
    ofDocument source (ofColumns (records.map (·.position)) columns') =
      ofDocument source ⟨header, records.map .ok⟩ ∧
    ((∃ rows, ofDocument source ⟨header, records.map .ok⟩ = .ok rows) ∨
      ∃ line column value expectation, ofDocument source ⟨header, records.map .ok⟩ =
        .error (.invalidValue line column value expectation)) ∧
    ∀ bytes bytes', Csv.Document.read bytes = .ok ⟨header, records.map .ok⟩ →
      Csv.Document.read bytes' = .ok (ofColumns (records.map (·.position)) columns') →
        readTable source bytes' = readTable source bytes := by
  have htable := ofColumns_columnsOf hlength
  have hnames : (columnsOf header records).map (·.name) = header :=
    congrArg Csv.Document.header htable
  have hsame : ofDocument source (ofColumns (records.map (·.position)) columns') =
      ofDocument source ⟨header, records.map .ok⟩ := by
    rw [← htable]
    apply ofDocument_rearranged
    · rwa [List.length_map]
    · rwa [hnames]
  refine ⟨hsame, ?_, fun bytes bytes' hbytes hbytes' => ?_⟩
  · rw [ofDocument_of_complete (mem_of_count hcount)]
    cases hread : ofRecords header (records.map .ok) with
    | ok rows => exact Or.inl ⟨rows, rfl⟩
    | error error =>
      obtain ⟨line, column, value, expectation, rfl⟩ := invalidValue_of_ofRecords hread
      exact Or.inr ⟨line, column, value, expectation, rfl⟩
  · rw [readTable, readTable, hbytes, hbytes']
    exact hsame

def sampleHeader : List String :=
  "db_type" :: requiredColumns

/-- A record that can be read, an empty one and one with two cells that cannot be read. -/
def sampleRecords : List Csv.Record :=
  let numbers := List.replicate 18 "0"
  [⟨⟨1, 2, 360⟩, ["TwoDB", "1024", "32", "64", "false", "1", "false", "1"] ++ numbers⟩,
    ⟨⟨2, 3, 430⟩, List.replicate 26 ""⟩,
    ⟨⟨3, 4, 456⟩, ["TwoDB", "1024", "32", "64", "maybe", "many", "false", "1"] ++ numbers⟩]

/-- The columns of the sample from right to left, with notes in front. -/
def sampleColumns : List Column :=
  ⟨"note", fun i => if i = 1 then "" else "slow"⟩ :: (columnsOf sampleHeader sampleRecords).reverse

theorem column_order_irrelevant_sample :
    (∀ record ∈ sampleRecords, record.cells.length = sampleHeader.length) ∧
    (∀ name ∈ requiredColumns, sampleHeader.count name = 1) ∧
    (∃ extra, IsRearranged 3 (columnsOf sampleHeader sampleRecords) extra sampleColumns) ∧
    ofDocument "raw.csv" ⟨sampleHeader, sampleRecords.map .ok⟩ =
      .error (.invalidValue 4 "malicious" "maybe" "expected true or false") ∧
    ofDocument "raw.csv" (ofColumns (sampleRecords.map (·.position)) sampleColumns) =
      .error (.invalidValue 4 "malicious" "maybe" "expected true or false") := by
  have hlength : ∀ record ∈ sampleRecords, record.cells.length = sampleHeader.length := by decide
  have hcount : ∀ name ∈ requiredColumns, sampleHeader.count name = 1 := by decide +kernel
  have hrearranged : IsRearranged 3 (columnsOf sampleHeader sampleRecords)
      [⟨"note", fun i => if i = 1 then "" else "slow"⟩] sampleColumns := by
    refine ⟨?_, by decide +kernel, by decide +kernel⟩
    exact ((List.reverse_perm _).cons _).trans (List.perm_append_singleton _ _).symm
  have hread : ofDocument "raw.csv" ⟨sampleHeader, sampleRecords.map .ok⟩ =
      .error (.invalidValue 4 "malicious" "maybe" "expected true or false") := by
    decide +kernel
  refine ⟨hlength, hcount, ⟨_, hrearranged⟩, hread, ?_⟩
  rw [(column_order_irrelevant hlength hcount hrearranged "raw.csv").1, hread]

end BenchTables.Measurement
