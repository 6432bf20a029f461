import BenchTables.Condensed.Reader
import BenchTables.Proofs.Lookup

/-!
# Reading a record by its columns

A record is read cell by cell, but what comes of it can be told by column: as long as no known
column is repeated and every known cell has a value, the draft holds under each column the value
of the cell under it (`Draft.Holds`).  One cell keeps that up (`Draft.Holds.fill`), and so does a
whole record (`Draft.Holds.fillFrom`); `Draft.Holds.finish` is the row that comes of it.
-/

namespace BenchTables

/-! ## Values of cells -/

/-- The unsigned integer in a cell, if it holds one. -/
def countOf? (text : String) : Option UInt64 :=
  (readCountText text.toList).toOption

/-- The number in a cell, if it holds one. -/
def quantityOf? (text : String) : Option Float :=
  (Decimal.readFloat text.toList).toOption

theorem word_of_countOf? {p : Csv.Position} {field : ℕ} {text : String} {w : UInt64}
    (h : countOf? text = some w) : Draft.word p field text = .ok w := by
  rw [countOf?] at h
  rw [Draft.word]
  cases hread : readCountText text.toList with
  | error fault => rw [hread] at h; cases h
  | ok value => rw [hread] at h; cases h; rfl

theorem quantity_of_quantityOf? {p : Csv.Position} {field : ℕ} {text : String} {x : Float}
    (h : quantityOf? text = some x) : Draft.quantity p field text = .ok x := by
  rw [quantityOf?] at h
  rw [Draft.quantity]
  cases hread : Decimal.readFloat text.toList with
  | error fault => rw [hread] at h; cases h
  | ok value => rw [hread] at h; cases h; rfl

variable {n : ℕ}

theorem get_of_finIdxOf?_eq_some {names : Vector String n} {name : String} {i : Fin n}
    (h : names.finIdxOf? name = some i) : names.get i = name := by
  have harray := @Vector.finIdxOf?_toArray _ _ _ name names
  rw [h, Option.map_some, Array.finIdxOf?_eq_some_iff] at harray
  exact harray.1

theorem not_mem_of_finIdxOf?_eq_none {names : Vector String n} {name : String}
    (h : names.finIdxOf? name = none) : name ∉ names := by
  have harray := @Vector.finIdxOf?_toArray _ _ _ name names
  rw [h, Option.map_none, Array.finIdxOf?_eq_none_iff] at harray
  simpa using harray

theorem exists_get_of_mem {names : Vector String n} {name : String} (h : name ∈ names) :
    ∃ i : Fin n, names.get i = name := by
  obtain ⟨i, hi, heq⟩ := Vector.mem_iff_getElem.mp h
  exact ⟨⟨i, hi⟩, heq⟩

namespace Schema

/-- The columns of a schema have distinct names. -/
def Distinct (schema : Schema n) : Prop := schema.header.Nodup

/-- A cell under a column of numbers holds a number. -/
def Accepts (schema : Schema n) (cell : String × String) : Prop :=
  (cell.1 = "db_size" ∨ cell.1 = "rate" → (countOf? cell.2).isSome) ∧
    (cell.1 ∈ schema.quantities → (quantityOf? cell.2).isSome)

/-- Of the known columns none is repeated. -/
def KnownOnce (schema : Schema n) (columns : List String) : Prop :=
  (columns.filter (· ∈ schema.header)).Nodup

theorem Distinct.quantities_ne {schema : Schema n} (h : schema.Distinct) (i : Fin n) :
    schema.quantities.get i ≠ "EXPID" ∧ schema.quantities.get i ≠ "db_size" ∧
      schema.quantities.get i ≠ "rate" := by
  have hmem : schema.quantities.get i ∈ schema.quantities.toList := by
    rw [Vector.mem_toList_iff]
    exact Vector.getElem_mem i.isLt
  obtain ⟨-, -, hdisjoint⟩ := List.nodup_append.mp h
  refine ⟨?_, ?_, ?_⟩ <;> intro heq <;> refine hdisjoint _ ?_ _ hmem heq.symm <;> decide

theorem Distinct.quantities_inj {schema : Schema n} (h : schema.Distinct) {i j : Fin n}
    (heq : schema.quantities.get i = schema.quantities.get j) : i = j := by
  obtain ⟨-, hnodup, -⟩ := List.nodup_append.mp h
  have hi : (i : ℕ) < schema.quantities.toList.length := by simp
  have hj : (j : ℕ) < schema.quantities.toList.length := by simp
  have hsame : schema.quantities.toList[(i : ℕ)] = schema.quantities.toList[(j : ℕ)] := by
    rw [Vector.getElem_toList, Vector.getElem_toList]
    exact heq
  exact Fin.ext (hnodup.getElem_inj_iff.mp hsame)

theorem KnownOnce.not_mem_of_append {schema : Schema n} {done rest : List String} {column : String}
    (h : schema.KnownOnce (done ++ column :: rest)) (hknown : column ∈ schema.header) :
    column ∉ done := by
  intro hdone
  rw [KnownOnce, List.filter_append, List.nodup_append] at h
  refine h.2.2 column ?_ column ?_ rfl
  · exact List.mem_filter.mpr ⟨hdone, by simpa using hknown⟩
  · exact List.mem_filter.mpr ⟨List.mem_cons_self, by simpa using hknown⟩

theorem quantities_mem_header (schema : Schema n) (i : Fin n) :
    schema.quantities.get i ∈ schema.header :=
  List.mem_append_right _ (Vector.mem_toList_iff.mpr (Vector.getElem_mem i.isLt))

theorem mem_header_cases {schema : Schema n} {column : String} (h : column ∈ schema.header) :
    column = "EXPID" ∨ column = "db_size" ∨ column = "rate" ∨
      ∃ i : Fin n, schema.quantities.get i = column := by
  rcases List.mem_append.mp h with h | h
  · simp only [keyColumns, List.mem_cons, List.not_mem_nil, or_false] at h
    rcases h with h | h | h
    · exact Or.inl h
    · exact Or.inr (Or.inl h)
    · exact Or.inr (Or.inr (Or.inl h))
  · exact Or.inr (Or.inr (Or.inr (exists_get_of_mem (Vector.mem_toList_iff.mp h))))

theorem Distinct.finIdxOf?_quantities {schema : Schema n} (h : schema.Distinct) (i : Fin n) :
    schema.quantities.finIdxOf? (schema.quantities.get i) = some i := by
  cases hfind : schema.quantities.finIdxOf? (schema.quantities.get i) with
  | none => exact absurd (Vector.getElem_mem i.isLt) (not_mem_of_finIdxOf?_eq_none hfind)
  | some j => rw [h.quantities_inj (get_of_finIdxOf?_eq_some hfind)]

end Schema

/-! ## What a draft holds -/

/-- The draft holds under each column the value of the cell under it, of the cells read so far. -/
structure Draft.Holds (schema : Schema n) (cells : List (String × String)) (d : Draft n) :
    Prop where
  id : d.id = cells.lookup "EXPID"
  dbSize : d.dbSize = (cells.lookup "db_size").bind countOf?
  rate : d.rate = (cells.lookup "rate").bind countOf?
  quantities : ∀ i : Fin n,
    d.quantities.get i = (cells.lookup (schema.quantities.get i)).bind quantityOf?

namespace Draft

theorem holds_blank (schema : Schema n) : (blank n).Holds schema [] where
  id := rfl
  dbSize := rfl
  rate := rfl
  quantities i := by
    show (Vector.replicate n none)[i] = none
    simp

variable {schema : Schema n} {done : List (String × String)} {d : Draft n} {p : Csv.Position}
  {column text : String}

/-! ### One more cell

What a cell does not set stays as it was, for the look-up of another column passes over it. -/

theorem Holds.id_append (hd : d.Holds schema done) (h : "EXPID" ≠ column) :
    d.id = (done ++ [(column, text)]).lookup "EXPID" := by
  rw [lookup_append_single_of_ne h]
  exact hd.id

theorem Holds.dbSize_append (hd : d.Holds schema done) (h : "db_size" ≠ column) :
    d.dbSize = ((done ++ [(column, text)]).lookup "db_size").bind countOf? := by
  rw [lookup_append_single_of_ne h]
  exact hd.dbSize

theorem Holds.rate_append (hd : d.Holds schema done) (h : "rate" ≠ column) :
    d.rate = ((done ++ [(column, text)]).lookup "rate").bind countOf? := by
  rw [lookup_append_single_of_ne h]
  exact hd.rate

theorem Holds.quantities_append (hd : d.Holds schema done) {i : Fin n}
    (h : schema.quantities.get i ≠ column) :
    d.quantities.get i =
      ((done ++ [(column, text)]).lookup (schema.quantities.get i)).bind quantityOf? := by
  rw [lookup_append_single_of_ne h]
  exact hd.quantities i

theorem Holds.fill_id (p : Csv.Position) (field : ℕ) (hschema : schema.Distinct)
    (hd : d.Holds schema done) (hnew : "EXPID" ∉ done.map Prod.fst) :
    ∃ d', d.fill schema p field "EXPID" text = .ok d' ∧
      d'.Holds schema (done ++ [("EXPID", text)]) := by
  rw [Draft.fill, if_pos rfl, hd.id, lookup_eq_none_of_not_mem hnew, if_neg (by simp)]
  refine ⟨_, rfl, ⟨?_, ?_, ?_, fun i => ?_⟩⟩
  · rw [lookup_append_single_self hnew]
  · exact hd.dbSize_append (by decide)
  · exact hd.rate_append (by decide)
  · exact hd.quantities_append (hschema.quantities_ne i).1

theorem Holds.fill_dbSize (p : Csv.Position) (field : ℕ) (hschema : schema.Distinct)
    (hd : d.Holds schema done) (hnew : "db_size" ∉ done.map Prod.fst) {w : UInt64}
    (hw : countOf? text = some w) :
    ∃ d', d.fill schema p field "db_size" text = .ok d' ∧
      d'.Holds schema (done ++ [("db_size", text)]) := by
  rw [Draft.fill, if_neg (by decide), if_pos rfl, hd.dbSize, lookup_eq_none_of_not_mem hnew,
    if_neg (by simp), word_of_countOf? hw]
  refine ⟨_, rfl, ⟨?_, ?_, ?_, fun i => ?_⟩⟩
  · exact hd.id_append (by decide)
  · rw [lookup_append_single_self hnew, Option.bind_some, hw]
  · exact hd.rate_append (by decide)
  · exact hd.quantities_append (hschema.quantities_ne i).2.1

theorem Holds.fill_rate (p : Csv.Position) (field : ℕ) (hschema : schema.Distinct)
    (hd : d.Holds schema done) (hnew : "rate" ∉ done.map Prod.fst) {w : UInt64}
    (hw : countOf? text = some w) :
    ∃ d', d.fill schema p field "rate" text = .ok d' ∧
      d'.Holds schema (done ++ [("rate", text)]) := by
  rw [Draft.fill, if_neg (by decide), if_neg (by decide), if_pos rfl, hd.rate,
    lookup_eq_none_of_not_mem hnew, if_neg (by simp), word_of_countOf? hw]
  refine ⟨_, rfl, ⟨?_, ?_, ?_, fun i => ?_⟩⟩
  · exact hd.id_append (by decide)
  · exact hd.dbSize_append (by decide)
  · rw [lookup_append_single_self hnew, Option.bind_some, hw]
  · exact hd.quantities_append (hschema.quantities_ne i).2.2

theorem Holds.fill_quantity (p : Csv.Position) (field : ℕ) (hschema : schema.Distinct)
    (hd : d.Holds schema done) {i : Fin n} (hnew : schema.quantities.get i ∉ done.map Prod.fst)
    {x : Float} (hx : quantityOf? text = some x) :
    ∃ d', d.fill schema p field (schema.quantities.get i) text = .ok d' ∧
      d'.Holds schema (done ++ [(schema.quantities.get i, text)]) := by
  obtain ⟨hid, hsize, hrate⟩ := hschema.quantities_ne i
  have hempty : d.quantities[i] = none := by
    show d.quantities.get i = none
    rw [hd.quantities, lookup_eq_none_of_not_mem hnew, Option.bind_none]
  rw [Draft.fill, if_neg hid, if_neg hsize, if_neg hrate, hschema.finIdxOf?_quantities i]
  dsimp only
  rw [hempty, if_neg (by simp), quantity_of_quantityOf? hx]
  refine ⟨_, rfl, ⟨?_, ?_, ?_, fun j => ?_⟩⟩
  · exact hd.id_append (Ne.symm hid)
  · exact hd.dbSize_append (Ne.symm hsize)
  · exact hd.rate_append (Ne.symm hrate)
  · by_cases hj : j = i
    · subst hj
      rw [lookup_append_single_self hnew, Option.bind_some, hx]
      exact Vector.getElem_set_self j.isLt
    · rw [← hd.quantities_append fun h => hj (hschema.quantities_inj h)]
      exact Vector.getElem_set_ne i.isLt j.isLt fun h => hj (Fin.ext h.symm)

theorem Holds.fill_unknown (p : Csv.Position) (field : ℕ) (hd : d.Holds schema done)
    (h : column ∉ schema.header) :
    ∃ d', d.fill schema p field column text = .ok d' ∧
      d'.Holds schema (done ++ [(column, text)]) := by
  have hkey : ∀ key ∈ Schema.keyColumns, key ≠ column := fun key hmem heq =>
    h (heq ▸ List.mem_append_left _ hmem)
  have hquantity : ∀ i : Fin n, schema.quantities.get i ≠ column := fun i heq =>
    h (heq ▸ Schema.quantities_mem_header schema i)
  have hid := hkey "EXPID" (by decide)
  have hsize := hkey "db_size" (by decide)
  have hrate := hkey "rate" (by decide)
  have hfind : schema.quantities.finIdxOf? column = none := by
    cases hfind : schema.quantities.finIdxOf? column with
    | none => rfl
    | some i => exact absurd (get_of_finIdxOf?_eq_some hfind) (hquantity i)
  rw [Draft.fill, if_neg hid.symm, if_neg hsize.symm, if_neg hrate.symm, hfind]
  exact ⟨d, rfl, hd.id_append hid, hd.dbSize_append hsize, hd.rate_append hrate,
    fun i => hd.quantities_append (hquantity i)⟩

/-- One more cell: a known column is filled with the value of its cell, another changes nothing. -/
theorem Holds.fill (p : Csv.Position) (field : ℕ) (hschema : schema.Distinct)
    (hd : d.Holds schema done) (hnew : column ∈ schema.header → column ∉ done.map Prod.fst)
    (haccepts : schema.Accepts (column, text)) :
    ∃ d', d.fill schema p field column text = .ok d' ∧
      d'.Holds schema (done ++ [(column, text)]) := by
  by_cases hknown : column ∈ schema.header
  · have hnew := hnew hknown
    rcases Schema.mem_header_cases hknown with rfl | rfl | rfl | ⟨i, rfl⟩
    · exact hd.fill_id p field hschema hnew
    · obtain ⟨w, hw⟩ := Option.isSome_iff_exists.mp (haccepts.1 (Or.inl rfl))
      exact hd.fill_dbSize p field hschema hnew hw
    · obtain ⟨w, hw⟩ := Option.isSome_iff_exists.mp (haccepts.1 (Or.inr rfl))
      exact hd.fill_rate p field hschema hnew hw
    · obtain ⟨x, hx⟩ := Option.isSome_iff_exists.mp (haccepts.2 (Vector.getElem_mem i.isLt))
      exact hd.fill_quantity p field hschema hnew hx
  · exact hd.fill_unknown p field hknown

/-! ### A whole record -/

/-- A record whose known columns are not repeated and hold values is read to its end. -/
theorem Holds.fillFrom (p : Csv.Position) (field : ℕ) (hschema : schema.Distinct)
    (hd : d.Holds schema done) (cells : List (String × String))
    (honce : schema.KnownOnce ((done ++ cells).map Prod.fst))
    (haccepts : ∀ cell ∈ cells, schema.Accepts cell) :
    ∃ d', d.fillFrom schema p field cells = .ok d' ∧ d'.Holds schema (done ++ cells) := by
  induction cells generalizing d done field with
  | nil =>
    rw [List.append_nil]
    exact ⟨d, rfl, hd⟩
  | cons cell rest ih =>
    obtain ⟨column, text⟩ := cell
    have hnew : column ∈ schema.header → column ∉ done.map Prod.fst := by
      rw [List.map_append] at honce
      exact honce.not_mem_of_append
    obtain ⟨d₁, hfill, hd₁⟩ := hd.fill p field hschema hnew
      (haccepts _ List.mem_cons_self)
    obtain ⟨d₂, hrest, hd₂⟩ := ih (field + 1) hd₁ (by rwa [List.append_assoc])
      fun cell h => haccepts cell (List.mem_cons_of_mem _ h)
    refine ⟨d₂, ?_, by rwa [List.append_assoc] at hd₂⟩
    rw [Draft.fillFrom, hfill]
    exact hrest

/-- A draft with all that a row has to have is the row of the cells' values. -/
theorem Holds.finish (hd : d.Holds schema done) {row : CondensedRow n}
    (hid : (done.lookup "EXPID").getD "" = row.id)
    (hsize : (done.lookup "db_size").bind countOf? = some row.dbSize)
    (hrate : (done.lookup "rate").bind countOf? = some row.rate)
    (hquantities : ∀ i : Fin n,
      (done.lookup (schema.quantities.get i)).bind quantityOf? = some (row.quantities.get i) ∨
        done.lookup (schema.quantities.get i) = none ∧ i = schema.total ∧
          row.quantities.get i = 0.0) :
    d.finish schema p = .ok row := by
  have hsettle : d.settle schema p = fun i => pure (row.quantities.get i) := by
    funext i
    have hget : d.quantities[i] = _ := hd.quantities i
    rw [settle, hget]
    rcases hquantities i with hvalue | ⟨habsent, htotal, hzero⟩
    · rw [hvalue]
      rfl
    · rw [habsent, Option.bind_none, hzero]
      exact if_pos htotal
  have hvector : (Vector.finRange n).map (fun i => row.quantities.get i) = row.quantities := by
    ext i hi
    rw [Vector.getElem_map, Vector.getElem_finRange]
    rfl
  rw [Draft.finish, hsettle, Vector.mapM_pure, hvector, hd.id, hd.dbSize, hd.rate, hid, hsize,
    hrate]
  rfl

end Draft

end BenchTables
