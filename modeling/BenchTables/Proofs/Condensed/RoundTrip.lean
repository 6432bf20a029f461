import BenchTables.Proofs.Condensed.Draft
import BenchTables.Proofs.Csv.RoundTrip
import BenchTables.Proofs.Decimal.TwoPlaces

/-!
# Condensed tables, read back

A condensed table that was written is read back row by row: identifiers and integers as they were,
each quantity as the double nearest to its two decimals (`readTable_write`).  The rows that were
read are written as the same cells (`cells_reread`).
-/

namespace BenchTables

/-! ## Texts without white space -/

theorem trim_wordText (w : UInt64) : Text.trim (Decimal.wordText w) = Decimal.wordText w := by
  refine Text.trim_of_forall fun c hc => Text.isBlank_of_isDigit ?_
  rw [Decimal.wordText, Decimal.natText_toList] at hc
  exact Decimal.isDigit_of_mem_digits hc

theorem isBlank_of_mem_hundredthsText {k : ℕ} {c : Char}
    (h : c ∈ (Decimal.hundredthsText k).toList) :
    Text.isBlank c = false := by
  rcases Decimal.isDigit_or_dot_of_mem_hundredthsText h with hdigit | rfl
  · exact Text.isBlank_of_isDigit hdigit
  · rfl

theorem trim_twoPlaces (x : Float) : Text.trim (Decimal.twoPlaces x) = Decimal.twoPlaces x := by
  rw [Decimal.twoPlaces]
  cases Decimal.BinaryValue.ofFloat x with
  | nan => rfl
  | infinite negative => cases negative <;> rfl
  | finite negative m e =>
    apply Text.trim_of_forall
    intro c hc
    rw [Decimal.BinaryValue.twoPlaces, String.toList_append, List.mem_append] at hc
    rcases hc with hc | hc
    · cases negative
      · cases hc
      · rw [List.mem_singleton.mp hc]
        rfl
    · exact isBlank_of_mem_hundredthsText hc

/-! ## Values read back -/

theorem countOf?_wordText (w : UInt64) : countOf? (Decimal.wordText w) = some w := by
  have hdigits : ∀ c ∈ (Decimal.wordText w).toList, Decimal.isDigit c := fun c hc =>
    Decimal.isDigit_of_mem_digits (by rwa [Decimal.wordText, Decimal.natText_toList] at hc)
  have hread : readCountText (Decimal.wordText w).toList = .ok w := by
    unfold readCountText
    split
    next heq => exact absurd (hdigits 'x' (by rw [heq]; simp)) (by decide)
    next => rw [Decimal.wordText, Decimal.natText_toList, Decimal.readWord_digits]
  rw [countOf?, hread]
  rfl

theorem quantityOf?_twoPlaces (x : Float) :
    quantityOf? (Decimal.twoPlaces x) = some (Decimal.reread x) := by
  rw [quantityOf?, Decimal.readFloat_twoPlaces]
  rfl

variable {n : ℕ}

namespace CondensedRow

/-- The row with every quantity as its text is read back. -/
def reread (row : CondensedRow n) : CondensedRow n :=
  { row with quantities := row.quantities.map Decimal.reread }

theorem reread_get (row : CondensedRow n) (i : Fin n) :
    row.reread.quantities.get i = Decimal.reread (row.quantities.get i) := by
  show (row.quantities.map Decimal.reread)[i] = _
  rw [Fin.getElem_fin, Vector.getElem_map]
  rfl

/-- A row that was read back is written as the row that was written. -/
@[simp] theorem cells_reread (row : CondensedRow n) : row.reread.cells = row.cells := by
  have hquantities : (row.quantities.map Decimal.reread).toList.map Decimal.twoPlaces =
      row.quantities.toList.map Decimal.twoPlaces := by
    rw [Vector.toList_map, List.map_map]
    exact List.map_congr_left fun x _ => Decimal.twoPlaces_reread x
  rw [cells, cells, reread, hquantities]

theorem map_trim_cells {row : CondensedRow n} (hid : Text.trim row.id = row.id) :
    row.cells.map Text.trim = row.cells := by
  simp [cells, hid, trim_wordText, Function.comp_def, trim_twoPlaces]

theorem zip_header_cells (schema : Schema n) (row : CondensedRow n) :
    schema.header.zip row.cells =
      ("EXPID", row.id) :: ("db_size", Decimal.wordText row.dbSize) ::
        ("rate", Decimal.wordText row.rate) ::
          schema.quantities.toList.zip (row.quantities.toList.map Decimal.twoPlaces) := rfl

variable {schema : Schema n}

theorem lookup_zip_quantities (h : schema.Distinct) (row : CondensedRow n) (i : Fin n) :
    (schema.quantities.toList.zip (row.quantities.toList.map Decimal.twoPlaces)).lookup
      (schema.quantities.get i) = some (Decimal.twoPlaces (row.quantities.get i)) := by
  obtain ⟨-, hnodup, -⟩ := List.nodup_append.mp h
  have hlookup := lookup_zip_getElem hnodup (row.quantities.toList.map Decimal.twoPlaces)
    (i := i) (by simp) (by simp)
  rw [List.getElem_map, Vector.getElem_toList, Vector.getElem_toList] at hlookup
  exact hlookup

theorem accepts_of_mem_zip (h : schema.Distinct) (row : CondensedRow n) :
    ∀ cell ∈ schema.header.zip row.cells, schema.Accepts cell := by
  have hkey : ∀ key, key ∈ Schema.keyColumns → key ∉ schema.quantities := fun key hkey hmem =>
    (List.nodup_append.mp h).2.2 key hkey key (Vector.mem_toList_iff.mpr hmem) rfl
  have hcount : ∀ w, (countOf? (Decimal.wordText w)).isSome := fun w => by
    rw [countOf?_wordText]
    rfl
  intro cell hcell
  rw [zip_header_cells] at hcell
  simp only [List.mem_cons] at hcell
  rcases hcell with rfl | rfl | rfl | hcell
  · exact ⟨by simp, fun hmem => absurd hmem (hkey "EXPID" (by decide))⟩
  · exact ⟨fun _ => hcount _, fun hmem => absurd hmem (hkey "db_size" (by decide))⟩
  · exact ⟨fun _ => hcount _, fun hmem => absurd hmem (hkey "rate" (by decide))⟩
  · obtain ⟨hcolumn, htext⟩ := List.of_mem_zip (a := cell.1) (b := cell.2) hcell
    obtain ⟨x, -, hx⟩ := List.mem_map.mp htext
    rw [Vector.mem_toList_iff] at hcolumn
    refine ⟨fun hname => ?_, fun _ => ?_⟩
    · rcases hname with hname | hname
      · exact absurd (hname ▸ hcolumn) (hkey _ (by decide))
      · exact absurd (hname ▸ hcolumn) (hkey _ (by decide))
    · rw [← hx, quantityOf?_twoPlaces]
      rfl

/-- The cells of a row, under the columns of its table, are read as the row. -/
theorem ofRecord_cells (h : schema.Distinct) (p : Csv.Position) (row : CondensedRow n) :
    ofRecord schema schema.header ⟨p, row.cells⟩ = .ok row.reread := by
  have honce : schema.KnownOnce ((schema.header.zip row.cells).map Prod.fst) := by
    rw [List.map_fst_zip (by rw [cells_length schema])]
    exact List.Nodup.filter _ h
  obtain ⟨d, hfill, hd⟩ := (Draft.holds_blank schema).fillFrom p 0 h
    (schema.header.zip row.cells) honce (accepts_of_mem_zip h row)
  rw [List.nil_append] at hd
  rw [ofRecord]
  dsimp only
  rw [hfill]
  refine hd.finish ?_ ?_ ?_ fun i => ?_
  · rfl
  · exact countOf?_wordText row.dbSize
  · exact countOf?_wordText row.rate
  · obtain ⟨hid, hsize, hrate⟩ := h.quantities_ne i
    left
    rw [zip_header_cells, lookup_cons_of_ne hid, lookup_cons_of_ne hsize, lookup_cons_of_ne hrate,
      lookup_zip_quantities h, Option.bind_some, quantityOf?_twoPlaces, reread_get]

theorem exists_record_of_map_cells {entry : Except Csv.Fault Csv.Record} {cells : List String}
    (h : entry.map Csv.Record.cells = .ok cells) : ∃ p, entry = .ok ⟨p, cells⟩ := by
  cases entry with
  | error fault => cases h
  | ok record =>
    cases h
    exact ⟨record.position, rfl⟩

theorem mapM_ofRecord (h : schema.Distinct) {entries : List (Except Csv.Fault Csv.Record)}
    {rows : List (CondensedRow n)}
    (hcells : entries.map (·.map Csv.Record.cells) = rows.map fun row => .ok row.cells) :
    (entries.mapM fun entry =>
      (entry.bind (ofRecord schema schema.header)).mapError TableError.malformed) =
        .ok (rows.map reread) := by
  induction rows generalizing entries with
  | nil => rw [List.map_eq_nil_iff.mp hcells]; rfl
  | cons row rest ih =>
    obtain ⟨entry, others, rfl, hentry, hothers⟩ := List.map_eq_cons_iff.mp hcells
    obtain ⟨p, rfl⟩ := exists_record_of_map_cells hentry
    rw [List.mapM_cons, Except.bind, ofRecord_cells h, ih hothers]
    rfl

end CondensedRow

namespace Schema

variable {schema : Schema n}

theorem latency_header : latency.header =
    ["EXPID", "db_size", "rate", "RT_SendPIR", "RT_SendNotify", "RT_RecvGetNotified", "RT_RecvPIR",
      "RT_RecvNotify", "RT_SendGetNotified", "RT_Total"] := by
  simp [latency, header, keyColumns, Phase.ordered, Phase.column]

theorem bandwidth_distinct : bandwidth.Distinct := by
  rw [Distinct]
  decide

theorem latency_distinct : latency.Distinct := by
  rw [Distinct, latency_header]
  decide

theorem bandwidth_trimmed : bandwidth.header.map Text.trim = bandwidth.header := by decide

theorem latency_trimmed : latency.header.map Text.trim = latency.header := by
  rw [latency_header]
  decide

theorem locateColumns_header (schema : Schema n) (source : String) :
    ∃ places, locateColumns source schema.header schema.required = .ok places := by
  have hok : (locateColumns source schema.header schema.required).isOk := by
    rw [locateColumns_isOk_iff]
    intro column hcolumn
    rcases List.mem_append.mp hcolumn with h | h
    · exact List.mem_append_left _ (List.mem_cons_of_mem _ h)
    · exact List.mem_append_right _ (List.mem_of_mem_eraseIdx h)
  cases h : locateColumns source schema.header schema.required with
  | error e => rw [h] at hok; cases hok
  | ok places => exact ⟨places, rfl⟩

/-- What is written under a header begins with the name of its first column, with no mark. -/
theorem not_byteOrderMark_prefix (schema : Schema n) (records : List (List String)) :
    ¬Text.byteOrderMark <+: (Csv.write schema.header records).1 := by
  have hfirst : Csv.cellBytes (Text.encode "EXPID") <+: (Csv.write schema.header records).1 :=
    Csv.cellBytes_prefix_write (by decide)
  intro hmark
  have hname := List.prefix_of_prefix_length_le hmark hfirst (by decide)
  revert hname
  decide

end Schema

namespace CondensedRow

variable {schema : Schema n}

/-- A table that was written is read back, each quantity as its two decimals say. -/
theorem readTable_write (h : schema.Distinct) (htrim : schema.header.map Text.trim = schema.header)
    (source : String) {rows : List (CondensedRow n)}
    (hids : ∀ row ∈ rows, Text.trim row.id = row.id) :
    readTable schema source (Csv.write schema.header (rows.map cells)).1 =
      .ok (rows.map reread) := by
  have hlen : ∀ texts ∈ rows.map cells, texts.length = schema.header.length := by
    intro texts htexts
    obtain ⟨row, -, rfl⟩ := List.mem_map.mp htexts
    exact cells_length schema row
  have htrimmed : ∀ texts ∈ schema.header :: rows.map cells, texts.map Text.trim = texts := by
    intro texts htexts
    rcases List.mem_cons.mp htexts with rfl | htexts
    · exact htrim
    · obtain ⟨row, hrow, rfl⟩ := List.mem_map.mp htexts
      exact map_trim_cells (hids row hrow)
  have hne : schema.header ≠ [] := List.cons_ne_nil _ _
  obtain ⟨⟨header, records⟩, hdoc, rfl, hrecords⟩ := Csv.read_write hne
    (schema.not_byteOrderMark_prefix _) hlen htrimmed
  obtain ⟨places, hplaces⟩ := schema.locateColumns_header source
  rw [readTable, hdoc]
  change ofDocument schema source ⟨schema.header, records⟩ = _
  rw [ofDocument, hplaces]
  rw [List.map_map] at hrecords
  exact mapM_ofRecord h hrecords

end CondensedRow

end BenchTables
