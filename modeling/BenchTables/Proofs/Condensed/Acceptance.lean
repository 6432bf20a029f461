import BenchTables.Proofs.Condensed.RoundTrip
import BenchTables.Proofs.Measurement.ColumnOrder
import BenchTables.Proofs.SideBySide

/-!
# Which condensed tables are read

The columns that a condensed table is checked for are those that its rows cannot do without.  Under
a header that has them and repeats no known one, a table is read when every cell under a column of
numbers holds a number, and gives a row for each of its records (`CondensedRow.IsReadFrom`); else it
is refused for the first cell that does not (`CondensedRow.IsFirstMisread`).  A row is told by what
stands under the known columns, so it does not depend on their order or on other columns:
`condensed_table_read_or_first_misread`.
-/

namespace BenchTables

variable {n : ℕ} {schema : Schema n} {cells : List (String × String)} {cell : String × String}
  {column text : String} {fault : Csv.CellFault} {field : ℕ} {p : Csv.Position}

/-! ## Cells -/

namespace Schema

/-- The schemas of the condensed tables. -/
inductive IsCondensed : ∀ {n : ℕ}, Schema n → Prop
  | bandwidth : IsCondensed Schema.bandwidth
  | latency : IsCondensed Schema.latency

/-- Why a cell under a column of numbers holds no number. -/
inductive Misreads (schema : Schema n) : String × String → Csv.CellFault → Prop
  | count {column text : String} {fault : Decimal.IntegerFault}
      (hcolumn : column = "db_size" ∨ column = "rate")
      (hread : readCountText text.toList = .error fault) :
      Misreads schema (column, text) (.integer fault)
  | quantity {column text : String} {fault : Decimal.NumberFault}
      (hcolumn : column ∈ schema.quantities)
      (hread : Decimal.readFloat text.toList = .error fault) :
      Misreads schema (column, text) (.number fault)

theorem IsCondensed.distinct (h : schema.IsCondensed) : schema.Distinct := by
  cases h with
  | bandwidth => exact bandwidth_distinct
  | latency => exact latency_distinct

theorem Misreads.mem_header (h : schema.Misreads (column, text) fault) :
    column ∈ schema.header := by
  cases h with
  | count hcolumn =>
    rcases hcolumn with rfl | rfl
    · exact List.mem_append_left _ (by decide)
    · exact List.mem_append_left _ (by decide)
  | quantity hcolumn => exact List.mem_append_right _ (Vector.mem_toList_iff.mpr hcolumn)

theorem not_accepts_iff : ¬schema.Accepts cell ↔ ∃ fault, schema.Misreads cell fault := by
  obtain ⟨column, text⟩ := cell
  constructor
  · intro h
    by_contra! hnone
    refine h ⟨fun hcolumn => ?_, fun hcolumn => ?_⟩
    · rcases isSome_toOption_or (readCountText text.toList) with hsome | ⟨fault, hread⟩
      · exact hsome
      · exact absurd (.count hcolumn hread) (hnone _)
    · rcases isSome_toOption_or (Decimal.readFloat text.toList) with hsome | ⟨fault, hread⟩
      · exact hsome
      · exact absurd (.quantity hcolumn hread) (hnone _)
  · rintro ⟨fault, hmisread⟩ ⟨hcount, hquantity⟩
    cases hmisread with
    | count hcolumn hread => simpa [countOf?, hread, Except.toOption] using hcount hcolumn
    | quantity hcolumn hread => simpa [quantityOf?, hread, Except.toOption] using hquantity hcolumn

/-- Every quantity but the total is required. -/
theorem eq_total_of_not_mem_required {i : Fin n}
    (h : schema.quantities.get i ∉ schema.required) : i = schema.total := by
  by_contra hne
  refine h (List.mem_append_right _ (List.mem_eraseIdx_iff_getElem.mpr ?_))
  exact ⟨i, by simp, Fin.val_ne_of_ne hne, Vector.getElem_toList _⟩

/-- Under the columns of a schema stand the cells that stand first. -/
theorem KnownOnce.lookup_eq_some_iff (h : schema.KnownOnce (cells.map Prod.fst))
    (hknown : column ∈ schema.header) :
    cells.lookup column = some text ↔ (column, text) ∈ cells := by
  have hkeys : ((cells.filter fun cell => cell.1 ∈ schema.header).map Prod.fst).Nodup := by
    rwa [KnownOnce, List.filter_map] at h
  have hlookup := lookup_filter_fst (fun name => decide (name ∈ schema.header)) cells column
  rw [if_pos (decide_eq_true hknown)] at hlookup
  rw [← hlookup, lookup_eq_some_iff_of_nodup hkeys, List.mem_filter, and_iff_left]
  exact decide_eq_true hknown

end Schema

namespace CondensedRow

/-- What a record is read as: under each column that it has is a cell with the value in the row;
without identifiers the row has an empty one, and without totals it has a total of zero. -/
structure IsReadFrom (schema : Schema n) (cells : List (String × String))
    (row : CondensedRow n) : Prop where
  id : ("EXPID", row.id) ∈ cells ∨ "EXPID" ∉ cells.map Prod.fst ∧ row.id = ""
  dbSize : ∃ text, ("db_size", text) ∈ cells ∧ countOf? text = some row.dbSize
  rate : ∃ text, ("rate", text) ∈ cells ∧ countOf? text = some row.rate
  quantities : ∀ i : Fin n,
    (∃ text, (schema.quantities.get i, text) ∈ cells ∧
        quantityOf? text = some (row.quantities.get i)) ∨
      schema.quantities.get i ∉ cells.map Prod.fst ∧ i = schema.total ∧
        row.quantities.get i = 0.0

/-- The first of the cells of a record under columns of numbers that holds none. -/
def IsFirstMisread (schema : Schema n) (cells : List (String × String)) (field : ℕ)
    (fault : Csv.CellFault) : Prop :=
  ∃ before cell after, cells = before ++ cell :: after ∧ field = before.length ∧
    (∀ other ∈ before, schema.Accepts other) ∧ schema.Misreads cell fault

variable {row : CondensedRow n}

/-! ## Rows -/

theorem accepts_or_isFirstMisread (schema : Schema n) (cells : List (String × String)) :
    (∀ cell ∈ cells, schema.Accepts cell) ∨
      ∃ field fault, IsFirstMisread schema cells field fault := by
  refine (forall_or_exists_first schema.Accepts cells).imp_right ?_
  rintro ⟨before, cell, after, hcells, hbefore, hcell⟩
  obtain ⟨fault, hfault⟩ := Schema.not_accepts_iff.mp hcell
  exact ⟨_, fault, before, cell, after, hcells, rfl, hbefore, hfault⟩

/-- Cells of which none is misread make a row. -/
theorem exists_isReadFrom (hrequired : ∀ column ∈ schema.required, column ∈ cells.map Prod.fst)
    (haccepts : ∀ cell ∈ cells, schema.Accepts cell) : ∃ row, IsReadFrom schema cells row := by
  have hcell : ∀ {column}, column ∈ cells.map Prod.fst → ∃ text, (column, text) ∈ cells := by
    intro column hcolumn
    obtain ⟨⟨_, text⟩, hmem, rfl⟩ := List.mem_map.mp hcolumn
    exact ⟨text, hmem⟩
  have hid : ∃ id, ("EXPID", id) ∈ cells ∨ "EXPID" ∉ cells.map Prod.fst ∧ id = "" := by
    by_cases h : "EXPID" ∈ cells.map Prod.fst
    · obtain ⟨text, htext⟩ := hcell h
      exact ⟨text, Or.inl htext⟩
    · exact ⟨"", Or.inr ⟨h, rfl⟩⟩
  have hcount : ∀ column, column = "db_size" ∨ column = "rate" →
      ∃ w text, (column, text) ∈ cells ∧ countOf? text = some w := by
    intro column hcolumn
    have hmem : column ∈ schema.required :=
      List.mem_append_left _ (by simpa using hcolumn)
    obtain ⟨text, htext⟩ := hcell (hrequired column hmem)
    obtain ⟨w, hw⟩ := Option.isSome_iff_exists.mp ((haccepts _ htext).1 hcolumn)
    exact ⟨w, text, htext, hw⟩
  have hquantity : ∀ i : Fin n, ∃ x : Float,
      (∃ text, (schema.quantities.get i, text) ∈ cells ∧ quantityOf? text = some x) ∨
        schema.quantities.get i ∉ cells.map Prod.fst ∧ i = schema.total ∧ x = 0.0 := by
    intro i
    by_cases h : schema.quantities.get i ∈ cells.map Prod.fst
    · obtain ⟨text, htext⟩ := hcell h
      obtain ⟨x, hx⟩ := Option.isSome_iff_exists.mp
        ((haccepts _ htext).2 (Vector.getElem_mem i.isLt))
      exact ⟨x, Or.inl ⟨text, htext, hx⟩⟩
    · have htotal := Schema.eq_total_of_not_mem_required fun hmem => h (hrequired _ hmem)
      exact ⟨0.0, Or.inr ⟨h, htotal, rfl⟩⟩
  obtain ⟨id, hid⟩ := hid
  obtain ⟨dbSize, hdbSize⟩ := hcount "db_size" (Or.inl rfl)
  obtain ⟨rate, hrate⟩ := hcount "rate" (Or.inr rfl)
  choose value hvalue using hquantity
  refine ⟨⟨id, dbSize, rate, Vector.ofFn value⟩, hid, hdbSize, hrate, fun i => ?_⟩
  have hget : (Vector.ofFn value).get i = value i := Vector.getElem_ofFn i.isLt
  rw [hget]
  exact hvalue i

theorem IsReadFrom.accepts (honce : schema.KnownOnce (cells.map Prod.fst))
    (h : IsReadFrom schema cells row) :
    ∀ cell ∈ cells, schema.Accepts cell := by
  rintro ⟨column, text⟩ hcell
  have hsame : ∀ {other}, column ∈ schema.header → (column, other) ∈ cells → other = text := by
    intro other hknown hother
    have hlookup := (honce.lookup_eq_some_iff hknown).mpr hcell
    rw [(honce.lookup_eq_some_iff hknown).mpr hother] at hlookup
    exact Option.some.inj hlookup
  refine ⟨fun hcolumn => ?_, fun hcolumn => ?_⟩
  · rcases hcolumn with rfl | rfl
    · obtain ⟨other, hother, hvalue⟩ := h.dbSize
      rw [← hsame (List.mem_append_left _ (by decide)) hother, hvalue]
      rfl
    · obtain ⟨other, hother, hvalue⟩ := h.rate
      rw [← hsame (List.mem_append_left _ (by decide)) hother, hvalue]
      rfl
  · obtain ⟨i, rfl⟩ := exists_get_of_mem hcolumn
    rcases h.quantities i with ⟨other, hother, hvalue⟩ | ⟨habsent, -⟩
    · rw [← hsame (Schema.quantities_mem_header schema i) hother, hvalue]
      rfl
    · exact absurd (List.mem_map_of_mem hcell) habsent

/-- A draft of the cells of a row is finished as the row. -/
theorem IsReadFrom.finish (honce : schema.KnownOnce (cells.map Prod.fst))
    (h : IsReadFrom schema cells row) {d : Draft n} (hd : d.Holds schema cells) :
    d.finish schema p = .ok row := by
  have hkey : ∀ {key}, key ∈ Schema.keyColumns → key ∈ schema.header :=
    fun hkey => List.mem_append_left _ hkey
  have hvalue : ∀ {α : Type} {read : String → Option α} {column : String} {value : α},
      column ∈ schema.header → (∃ text, (column, text) ∈ cells ∧ read text = some value) →
        (cells.lookup column).bind read = some value := by
    rintro α read column value hknown ⟨text, htext, hread⟩
    rw [(honce.lookup_eq_some_iff hknown).mpr htext, Option.bind_some, hread]
  refine hd.finish ?_ (hvalue (hkey (by decide)) h.dbSize) (hvalue (hkey (by decide)) h.rate)
    fun i => ?_
  · rcases h.id with hid | ⟨habsent, hid⟩
    · rw [(honce.lookup_eq_some_iff (hkey (by decide))).mpr hid, Option.getD_some]
    · rw [lookup_eq_none_of_not_mem habsent, Option.getD_none, hid]
  · exact (h.quantities i).imp (hvalue (Schema.quantities_mem_header schema i))
      (And.imp_left lookup_eq_none_of_not_mem)

end CondensedRow

/-! ## Records -/

namespace Draft

variable {done : List (String × String)} {d : Draft n}

/-- A misread cell is the fault of its record. -/
theorem Holds.fill_misread (hschema : schema.Distinct) (hd : d.Holds schema done)
    (hnew : column ∉ done.map Prod.fst) (h : schema.Misreads (column, text) fault) :
    d.fill schema p field column text = .error (.invalidCell p field fault) := by
  have hcount : ∀ {fault}, readCountText text.toList = .error fault →
      word p field text = .error (.invalidCell p field (.integer fault)) := by
    intro fault hread
    rw [word, hread]
    rfl
  cases h with
  | count hcolumn hread =>
    rcases hcolumn with rfl | rfl
    · rw [Draft.fill, if_neg (by decide), if_pos rfl, hd.dbSize, lookup_eq_none_of_not_mem hnew,
        if_neg (by simp), hcount hread]
      rfl
    · rw [Draft.fill, if_neg (by decide), if_neg (by decide), if_pos rfl, hd.rate,
        lookup_eq_none_of_not_mem hnew, if_neg (by simp), hcount hread]
      rfl
  | quantity hcolumn hread =>
    obtain ⟨i, rfl⟩ := exists_get_of_mem hcolumn
    obtain ⟨hid, hsize, hrate⟩ := hschema.quantities_ne i
    have hempty : d.quantities[i] = none := by
      show d.quantities.get i = none
      rw [hd.quantities, lookup_eq_none_of_not_mem hnew, Option.bind_none]
    rw [Draft.fill, if_neg hid, if_neg hsize, if_neg hrate, hschema.finIdxOf?_quantities i]
    dsimp only
    rw [hempty, if_neg (by simp), quantity, hread]
    rfl

theorem fillFrom_append {cells : List (String × String)} {d' : Draft n}
    (h : d.fillFrom schema p field cells = .ok d') (rest : List (String × String)) :
    d.fillFrom schema p field (cells ++ rest) =
      d'.fillFrom schema p (field + cells.length) rest := by
  induction cells generalizing d field with
  | nil =>
    cases h
    rfl
  | cons cell others ih =>
    obtain ⟨column, text⟩ := cell
    obtain ⟨d₁, hfill, hothers⟩ := bind_eq_ok_iff.mp h
    have hplace : field + 1 + others.length = field + (others.length + 1) := by omega
    rw [List.cons_append, Draft.fillFrom, hfill, ok_bind, ih hothers, hplace]
    rfl

end Draft

namespace CondensedRow

variable {row : CondensedRow n} {rows : List (CondensedRow n)} {source : String}
  {header : List String} {record : Csv.Record} {records : List Csv.Record} {error : TableError}

section Records

variable (hschema : schema.Distinct) (honce : schema.KnownOnce header)

section OneRecord

variable (hlength : record.cells.length = header.length)

include hschema honce hlength

theorem ofRecord_of_isReadFrom (h : IsReadFrom schema (header.zip record.cells) row) :
    ofRecord schema header record = .ok row := by
  have hcolumns : schema.KnownOnce ((header.zip record.cells).map Prod.fst) := by
    rwa [List.map_fst_zip hlength.ge]
  obtain ⟨d, hfill, hd⟩ := (Draft.holds_blank schema).fillFrom record.position 0 hschema
    (header.zip record.cells) hcolumns (h.accepts hcolumns)
  exact bind_eq_ok_iff.mpr ⟨d, hfill, h.finish hcolumns hd⟩

theorem ofRecord_of_isFirstMisread
    (h : IsFirstMisread schema (header.zip record.cells) field fault) :
    ofRecord schema header record = .error (.invalidCell record.position field fault) := by
  obtain ⟨before, ⟨column, text⟩, after, hcells, rfl, hbefore, hmisread⟩ := h
  have hcolumns : schema.KnownOnce (before.map Prod.fst ++ column :: after.map Prod.fst) := by
    have hsplit := congrArg (List.map Prod.fst) hcells
    rw [List.map_fst_zip hlength.ge, List.map_append] at hsplit
    exact hsplit ▸ honce
  have hread : schema.KnownOnce (before.map Prod.fst) :=
    hcolumns.sublist ((List.sublist_append_left _ _).filter _)
  obtain ⟨d, hfill, hd⟩ := (Draft.holds_blank schema).fillFrom record.position 0 hschema before
    hread hbefore
  have hnew : column ∉ before.map Prod.fst := hcolumns.not_mem_of_append hmisread.mem_header
  rw [ofRecord, hcells, Draft.fillFrom_append hfill, Draft.fillFrom, Nat.zero_add,
    hd.fill_misread hschema hnew hmisread]
  rfl

variable (hrequired : ∀ column ∈ schema.required, column ∈ header)

include hrequired

theorem ofRecord_eq_ok_iff :
    ofRecord schema header record = .ok row ↔
      IsReadFrom schema (header.zip record.cells) row := by
  refine ⟨fun h => ?_, ofRecord_of_isReadFrom hschema honce hlength⟩
  rcases accepts_or_isFirstMisread schema (header.zip record.cells) with
    haccepts | ⟨field, fault, hmisread⟩
  · obtain ⟨other, hother⟩ := exists_isReadFrom
      (by rwa [List.map_fst_zip hlength.ge]) haccepts
    rw [ofRecord_of_isReadFrom hschema honce hlength hother] at h
    exact Except.ok.inj h ▸ hother
  · rw [ofRecord_of_isFirstMisread hschema honce hlength hmisread] at h
    cases h

theorem exists_ofRecord_eq_ok_iff :
    (∃ row, ofRecord schema header record = .ok row) ↔
      ∀ cell ∈ header.zip record.cells, schema.Accepts cell := by
  simp only [ofRecord_eq_ok_iff hschema honce hlength hrequired]
  constructor
  · rintro ⟨row, hrow⟩
    exact hrow.accepts (by rwa [List.map_fst_zip hlength.ge])
  · exact exists_isReadFrom (by rwa [List.map_fst_zip hlength.ge])

theorem ofRecord_eq_error_iff {fault : Csv.Fault} :
    ofRecord schema header record = .error fault ↔
      ∃ field cellFault, IsFirstMisread schema (header.zip record.cells) field cellFault ∧
        fault = .invalidCell record.position field cellFault := by
  constructor
  · intro h
    rcases accepts_or_isFirstMisread schema (header.zip record.cells) with
      haccepts | ⟨field, cellFault, hmisread⟩
    · obtain ⟨row, hrow⟩ :=
        (exists_ofRecord_eq_ok_iff hschema honce hlength hrequired).mpr haccepts
      rw [hrow] at h
      cases h
    · rw [ofRecord_of_isFirstMisread hschema honce hlength hmisread] at h
      exact ⟨field, cellFault, hmisread, (Except.error.inj h).symm⟩
  · rintro ⟨field, cellFault, hmisread, rfl⟩
    exact ofRecord_of_isFirstMisread hschema honce hlength hmisread

end OneRecord

/-! ## Tables -/

/-- The error of the first misread cell of records. -/
def IsFirstFault (schema : Schema n) (header : List String) (records : List Csv.Record)
    (error : TableError) : Prop :=
  ∃ before record after field fault, records = before ++ record :: after ∧
    (∀ other ∈ before, ∀ cell ∈ header.zip other.cells, schema.Accepts cell) ∧
    IsFirstMisread schema (header.zip record.cells) field fault ∧
    error = .malformed (.invalidCell record.position field fault)

theorem ofDocument_eq_mapM (hrequired : ∀ column ∈ schema.required, column ∈ header) :
    ofDocument schema source ⟨header, records.map .ok⟩ =
      records.mapM fun record => (ofRecord schema header record).mapError .malformed := by
  obtain ⟨places, hplaces⟩ :=
    exists_eq_ok_of_isOk ((locateColumns_isOk_iff source header schema.required).mpr hrequired)
  rw [ofDocument, hplaces, ok_bind, List.mapM_map]
  rfl

variable (hlength : ∀ record ∈ records, record.cells.length = header.length)
  (hrequired : ∀ column ∈ schema.required, column ∈ header)

include hschema honce hlength hrequired

theorem ofDocument_eq_ok_iff :
    ofDocument schema source ⟨header, records.map .ok⟩ = .ok rows ↔
      List.Forall₂ (fun record row => IsReadFrom schema (header.zip record.cells) row)
        records rows := by
  rw [ofDocument_eq_mapM hrequired, mapM_eq_ok_iff]
  refine forall₂_iff_of_mem fun record hrecord row => ?_
  rw [mapError_eq_ok_iff, ofRecord_eq_ok_iff hschema honce (hlength record hrecord) hrequired]

theorem exists_ofDocument_eq_ok_iff :
    (∃ rows, ofDocument schema source ⟨header, records.map .ok⟩ = .ok rows) ↔
      ∀ record ∈ records, ∀ cell ∈ header.zip record.cells, schema.Accepts cell := by
  simp only [ofDocument_eq_mapM hrequired, mapM_eq_ok_iff, mapError_eq_ok_iff,
    exists_forall₂_iff]
  exact forall₂_congr fun record hrecord =>
    exists_ofRecord_eq_ok_iff hschema honce (hlength record hrecord) hrequired

theorem ofDocument_eq_error_iff :
    ofDocument schema source ⟨header, records.map .ok⟩ = .error error ↔
      IsFirstFault schema header records error := by
  rw [ofDocument_eq_mapM hrequired, mapM_eq_error_iff]
  simp only [mapError_eq_ok_iff, mapError_eq_error_iff]
  constructor
  · rintro ⟨before, record, after, rfl, hbefore, fault, hfault, rfl⟩
    obtain ⟨field, cellFault, hmisread, rfl⟩ :=
      (ofRecord_eq_error_iff hschema honce (hlength record (by simp)) hrequired).mp hfault
    refine ⟨before, record, after, field, cellFault, rfl, fun other hother => ?_, hmisread, rfl⟩
    exact (exists_ofRecord_eq_ok_iff hschema honce
      (hlength other (List.mem_append_left _ hother)) hrequired).mp (hbefore other hother)
  · rintro ⟨before, record, after, field, cellFault, rfl, hbefore, hmisread, rfl⟩
    refine ⟨before, record, after, rfl, fun other hother => ?_, _,
      ofRecord_of_isFirstMisread hschema honce (hlength record (by simp)) hmisread, rfl⟩
    exact (exists_ofRecord_eq_ok_iff hschema honce
      (hlength other (List.mem_append_left _ hother)) hrequired).mpr (hbefore other hother)

end Records

/-! ## The order of columns -/

section Columns

open Measurement (Column ofColumns recordsOf columnsOf)

variable {positions : List Csv.Position} {columns extra columns' : List Column}

/-- A row is told by the cells under known columns. -/
theorem IsReadFrom.of_cells {cells' : List (String × String)}
    (hsame : ∀ column ∈ schema.header, ∀ text, (column, text) ∈ cells' ↔ (column, text) ∈ cells)
    (h : IsReadFrom schema cells row) : IsReadFrom schema cells' row := by
  have hkey : ∀ {key}, key ∈ Schema.keyColumns → key ∈ schema.header :=
    fun hkey => List.mem_append_left _ hkey
  have habsent : ∀ {column}, column ∈ schema.header → column ∉ cells.map Prod.fst →
      column ∉ cells'.map Prod.fst := by
    intro column hknown hnone hcolumn
    obtain ⟨⟨_, text⟩, hmem, rfl⟩ := List.mem_map.mp hcolumn
    exact hnone (List.mem_map_of_mem ((hsame _ hknown text).mp hmem))
  have hvalue : ∀ {column} {P : String → Prop}, column ∈ schema.header →
      (∃ text, (column, text) ∈ cells ∧ P text) → ∃ text, (column, text) ∈ cells' ∧ P text := by
    rintro column P hknown ⟨text, htext, hP⟩
    exact ⟨text, (hsame _ hknown text).mpr htext, hP⟩
  exact {
    id := h.id.imp (hsame _ (hkey (by decide)) _).mpr (And.imp_left (habsent (hkey (by decide))))
    dbSize := hvalue (hkey (by decide)) h.dbSize
    rate := hvalue (hkey (by decide)) h.rate
    quantities := fun i => (h.quantities i).imp (hvalue (schema.quantities_mem_header i))
      (And.imp_left (habsent (schema.quantities_mem_header i))) }

/-- The rows of a table of columns: one at each position, of the cells at its index. -/
theorem ofDocument_ofColumns_eq_ok_iff (hschema : schema.Distinct)
    (honce : schema.KnownOnce (columns.map (·.name)))
    (hrequired : ∀ column ∈ schema.required, column ∈ columns.map (·.name)) :
    ofDocument schema source (ofColumns positions columns) = .ok rows ↔
      positions.length = rows.length ∧ ∀ (i : ℕ) (row : CondensedRow n), rows[i]? = some row →
        IsReadFrom schema (columns.map fun column => (column.name, column.cell i)) row := by
  have hlength : ∀ record ∈ recordsOf positions columns,
      record.cells.length = (columns.map (·.name)).length := by
    intro record hrecord
    obtain ⟨i, hi, rfl⟩ := List.mem_mapIdx.mp hrecord
    simp
  have hwidth : (recordsOf positions columns).length = positions.length := List.length_mapIdx
  rw [ofColumns, ofDocument_eq_ok_iff hschema honce hlength hrequired, List.forall₂_iff_get,
    ← hwidth]
  refine and_congr_right fun hrows => ⟨fun h i row hrow => ?_, fun h i hi hi' => ?_⟩
  · obtain ⟨hi, rfl⟩ := List.getElem?_eq_some_iff.mp hrow
    have hread := h i (by omega) hi
    simpa [recordsOf, List.zip_map'] using hread
  · have hread := h i rows[i] (List.getElem?_eq_getElem hi')
    simpa [recordsOf, List.zip_map'] using hread

variable (hperm : columns'.Perm (columns ++ extra))
  (hextra : ∀ column ∈ extra, column.name ∉ schema.header)

include hperm hextra

theorem knownOnce_rearranged (honce : schema.KnownOnce (columns.map (·.name))) :
    schema.KnownOnce (columns'.map (·.name)) := by
  have hnone : (extra.map (·.name)).filter (· ∈ schema.header) = [] := by
    rw [List.filter_eq_nil_iff]
    intro name hname
    obtain ⟨column, hcolumn, rfl⟩ := List.mem_map.mp hname
    simpa using hextra column hcolumn
  have hknown := (hperm.map (·.name)).filter (· ∈ schema.header)
  rw [List.map_append, List.filter_append, hnone, List.append_nil] at hknown
  exact hknown.nodup_iff.mpr honce

theorem mem_cells_rearranged {i : ℕ} (hknown : column ∈ schema.header) :
    (column, text) ∈ columns'.map (fun column => (column.name, column.cell i)) ↔
      (column, text) ∈ columns.map fun column => (column.name, column.cell i) := by
  simp only [List.mem_map, hperm.mem_iff, List.mem_append, Prod.mk.injEq]
  constructor
  · rintro ⟨other, hother | hother, rfl, rfl⟩
    · exact ⟨other, hother, rfl, rfl⟩
    · exact absurd hknown (hextra other hother)
  · rintro ⟨other, hother, rfl, rfl⟩
    exact ⟨other, Or.inl hother, rfl, rfl⟩

/-- Columns in another order, with others among them, have the same rows. -/
theorem ofDocument_rearranged (hschema : schema.Distinct)
    (honce : schema.KnownOnce (columns.map (·.name)))
    (hrequired : ∀ column ∈ schema.required, column ∈ columns.map (·.name))
    {positions' : List Csv.Position} (hlength : positions'.length = positions.length) :
    ofDocument schema source (ofColumns positions' columns') = .ok rows ↔
      ofDocument schema source (ofColumns positions columns) = .ok rows := by
  have hrequired' : ∀ column ∈ schema.required, column ∈ columns'.map (·.name) := by
    intro column hcolumn
    obtain ⟨other, hother, rfl⟩ := List.mem_map.mp (hrequired column hcolumn)
    exact List.mem_map_of_mem (hperm.mem_iff.mpr (List.mem_append_left _ hother))
  rw [ofDocument_ofColumns_eq_ok_iff hschema (knownOnce_rearranged hperm hextra honce) hrequired',
    ofDocument_ofColumns_eq_ok_iff hschema honce hrequired, hlength]
  refine and_congr_right fun _ => forall₃_congr fun i row _ => ⟨?_, ?_⟩
  · exact IsReadFrom.of_cells fun column hknown text =>
      (mem_cells_rearranged hperm hextra hknown).symm
  · exact IsReadFrom.of_cells fun column hknown text => mem_cells_rearranged hperm hextra hknown

end Columns

/-- A condensed table whose header passes the check and repeats no known column is read when no
cell is misread, and gives a row for each record; else it is refused for the first misread cell.
Columns in another order and with unknown ones among them give the same rows.  Bytes are read as
the table that they are. -/
theorem condensed_table_read_or_first_misread (hschema : schema.IsCondensed)
    (hheader : (locateColumns source header schema.required).isOk)
    (honce : schema.KnownOnce header)
    (hlength : ∀ record ∈ records, record.cells.length = header.length) :
    ((∃ rows, ofDocument schema source ⟨header, records.map .ok⟩ = .ok rows) ↔
      ∀ record ∈ records, ∀ cell ∈ header.zip record.cells, schema.Accepts cell) ∧
    (∀ rows, ofDocument schema source ⟨header, records.map .ok⟩ = .ok rows ↔
      List.Forall₂ (fun record row => IsReadFrom schema (header.zip record.cells) row)
        records rows) ∧
    (∀ error, ofDocument schema source ⟨header, records.map .ok⟩ = .error error ↔
      IsFirstFault schema header records error) ∧
    (∀ (positions : List Csv.Position) (columns' extra : List Measurement.Column)
        (rows : List (CondensedRow n)), positions.length = records.length →
      columns'.Perm (Measurement.columnsOf header records ++ extra) →
      (∀ column ∈ extra, column.name ∉ schema.header) →
      (ofDocument schema source (Measurement.ofColumns positions columns') = .ok rows ↔
        ofDocument schema source ⟨header, records.map .ok⟩ = .ok rows)) ∧
    ∀ bytes table, Csv.Document.read bytes = .ok table →
      readTable schema source bytes = ofDocument schema source table := by
  have hdistinct := hschema.distinct
  have hrequired := (locateColumns_isOk_iff source header schema.required).mp hheader
  refine ⟨exists_ofDocument_eq_ok_iff hdistinct honce hlength hrequired,
    fun rows => ofDocument_eq_ok_iff hdistinct honce hlength hrequired,
    fun error => ofDocument_eq_error_iff hdistinct honce hlength hrequired, ?_, ?_⟩
  · intro positions columns' extra rows hpositions hperm hextra
    have htable := Measurement.ofColumns_columnsOf hlength
    have hnames : (Measurement.columnsOf header records).map (·.name) = header :=
      congrArg Csv.Document.header htable
    rw [← htable]
    apply ofDocument_rearranged hperm hextra hdistinct
    · rwa [hnames]
    · rwa [hnames]
    · rwa [List.length_map]
  · intro bytes table hbytes
    rw [readTable, hbytes]
    rfl

/-- The required columns in another order and one that is not known; a row has no identifier and no
total. -/
def looseHeader : List String :=
  ["BW_Total_Norm", "note", "rate", "db_size"]

def looseRecords : List Csv.Record :=
  [⟨⟨1, 2, 32⟩, ["2.5", "slow", "0x5", "1024"]⟩, ⟨⟨2, 3, 50⟩, ["1e1", "", "+3", "4096"]⟩]

def looseRows : List BandwidthRow :=
  [⟨"", 1024, 5, #v[0.0, 2.5]⟩, ⟨"", 4096, 3, #v[0.0, 10.0]⟩]

/-- A record without text under the columns of a round-trip table. -/
def blankRecords : List Csv.Record :=
  [⟨⟨1, 2, 100⟩, List.replicate 8 ""⟩]

theorem condensed_table_read_or_first_misread_loose :
    (locateColumns "bw.csv" looseHeader Schema.bandwidth.required).isOk ∧
    Schema.bandwidth.KnownOnce looseHeader ∧
    (∀ record ∈ looseRecords, record.cells.length = looseHeader.length) ∧
    ofDocument Schema.bandwidth "bw.csv" (Measurement.ofColumns [⟨1, 3, 0⟩, ⟨2, 4, 0⟩]
      (⟨"BW", fun _ => "?"⟩ :: (Measurement.columnsOf looseHeader looseRecords).reverse)) =
        .ok looseRows ∧
    (locateColumns "rt.csv" Schema.latency.required Schema.latency.required).isOk ∧
    Schema.latency.KnownOnce Schema.latency.required ∧
    (∀ record ∈ blankRecords, record.cells.length = Schema.latency.required.length) ∧
    IsFirstFault Schema.latency Schema.latency.required blankRecords
      (.malformed (.invalidCell ⟨1, 2, 100⟩ 0 (.integer .empty))) := by
  have hheader : (locateColumns "bw.csv" looseHeader Schema.bandwidth.required).isOk := by
    decide +kernel
  have honce : Schema.bandwidth.KnownOnce looseHeader := by
    unfold Schema.KnownOnce
    decide +kernel
  have hlength : ∀ record ∈ looseRecords, record.cells.length = looseHeader.length := by decide
  have hread : ofDocument Schema.bandwidth "bw.csv" ⟨looseHeader, looseRecords.map .ok⟩ =
      .ok looseRows := by
    decide +kernel
  have hheader' :
      (locateColumns "rt.csv" Schema.latency.required Schema.latency.required).isOk := by
    decide +kernel
  have honce' : Schema.latency.KnownOnce Schema.latency.required := by
    unfold Schema.KnownOnce
    decide +kernel
  have hlength' : ∀ record ∈ blankRecords,
      record.cells.length = Schema.latency.required.length := by
    decide +kernel
  obtain ⟨-, -, -, hrearranged, -⟩ :=
    condensed_table_read_or_first_misread .bandwidth hheader honce hlength
  obtain ⟨-, -, hrefused, -, -⟩ :=
    condensed_table_read_or_first_misread .latency hheader' honce' hlength'
  have hperm : (⟨"BW", fun _ => "?"⟩ ::
      (Measurement.columnsOf looseHeader looseRecords).reverse).Perm
        (Measurement.columnsOf looseHeader looseRecords ++ [⟨"BW", fun _ => "?"⟩]) :=
    ((List.reverse_perm _).cons _).trans (List.perm_append_singleton _ _).symm
  refine ⟨hheader, honce, hlength, ?_, hheader', honce', hlength', ?_⟩
  · exact (hrearranged _ _ _ _ rfl hperm (by decide +kernel)).mpr hread
  · exact (hrefused _).mp (by decide +kernel)

end CondensedRow

end BenchTables
