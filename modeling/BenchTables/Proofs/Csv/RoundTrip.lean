import BenchTables.Proofs.Csv.Encoding
import BenchTables.Proofs.Text.Padding

/-!
# Reading back what was written

The reader gives the header and the records of every encoding of a table, each cell trimmed
(`read_of_form`), and so those of a table that was written (`read_write`).
-/

namespace BenchTables.Csv

theorem decodeCells_encode (p : Position) (field : ℕ) (texts : List String) :
    decodeCells p field (texts.map Text.encode) = .ok (texts.map Text.trim) := by
  induction texts generalizing field with
  | nil => rfl
  | cons text rest ih =>
    rw [List.map_cons, decodeCells, Text.decode_encode]
    dsimp only
    rw [ih]
    rfl

theorem decodeCells_strip_encode (p : Position) (field : ℕ) (texts : List String) :
    decodeCells p field ((texts.map Text.encode).map (Text.strip Text.isBlankByte)) =
      .ok (texts.map Text.trim) := by
  induction texts generalizing field with
  | nil => rfl
  | cons text rest ih =>
    obtain ⟨stripped, hdecode, htrim⟩ := Text.decode_strip_encode text
    rw [List.map_cons, List.map_cons, decodeCells, hdecode]
    dsimp only
    rw [ih, List.map_cons, ← htrim]
    rfl

/-- A raw record of as many cells as expected is a record of their texts, trimmed. -/
theorem checkRecord_encode {width : ℕ} {raw : RawRecord} {texts : List String}
    (h : raw.cells = texts.map Text.encode) (hlen : texts.length = width) :
    checkRecord width raw = .ok ⟨raw.start, texts.map Text.trim⟩ := by
  have hwidth : raw.cells.length = width := by rw [h, List.length_map, hlen]
  rw [checkRecord, if_pos hwidth, h, decodeCells_strip_encode]
  rfl

theorem map_cells_checkRecord {width : ℕ} {raws : List RawRecord} {records : List (List String)}
    (h : raws.map RawRecord.cells = records.map (·.map Text.encode))
    (hlen : ∀ texts ∈ records, texts.length = width) :
    (raws.map (checkRecord width)).map (·.map Record.cells) =
      records.map fun texts => .ok (texts.map Text.trim) := by
  induction records generalizing raws with
  | nil => rw [List.map_eq_nil_iff.mp h]; rfl
  | cons texts rest ih =>
    obtain ⟨raw, others, rfl, hraw, hothers⟩ := List.map_eq_cons_iff.mp h
    rw [List.map_cons, List.map_cons, checkRecord_encode hraw (hlen texts List.mem_cons_self),
      ih hothers fun t ht => hlen t (List.mem_cons_of_mem texts ht)]
    rfl

/-- The reader gives the table whose cells are cut from bytes, each without the white space around
it. -/
theorem read_of_cut {w : List UInt8} {header : List String} {records : List (List String)}
    (hcut : (cut w).map RawRecord.cells = (header :: records).map (·.map Text.encode))
    (hlen : ∀ texts ∈ records, texts.length = header.length) :
    ∃ doc, Document.read w = .ok doc ∧ doc.header = header.map Text.trim ∧
      doc.records.map (·.map Record.cells) =
        records.map fun texts => .ok (texts.map Text.trim) := by
  rw [List.map_cons] at hcut
  obtain ⟨head, rest, hraws, hhead, hrest⟩ := List.map_eq_cons_iff.mp hcut
  have hwidth : head.cells.length = header.length := by rw [hhead, List.length_map]
  refine ⟨⟨header.map Text.trim, rest.map (checkRecord header.length)⟩, ?_, rfl, ?_⟩
  · rw [Document.read, hraws, Document.ofRaw, hwidth, hhead, decodeCells_encode]
    rfl
  · exact map_cells_checkRecord hrest hlen

/-- The reader gives the table that bytes encode, each cell without the white space around it. -/
theorem read_of_form {w : List UInt8} {header : List String} {records : List (List String)}
    (h : TextForm w ((header :: records).map (·.map Text.encode)))
    (hmark : ¬Text.byteOrderMark <+: w) (hlen : ∀ texts ∈ records, texts.length = header.length) :
    ∃ doc, Document.read w = .ok doc ∧ doc.header = header.map Text.trim ∧
      doc.records.map (·.map Record.cells) =
        records.map fun texts => .ok (texts.map Text.trim) :=
  read_of_cut (cells_cut h hmark) hlen

/-! ## What was written -/

theorem write_form {header : List String} {records : List (List String)} (hne : header ≠ [])
    (hlen : ∀ texts ∈ records, texts.length = header.length) :
    TextForm (write header records).1 ((header :: records).map (·.map Text.encode)) ∧
      (write header records).2 = none := by
  apply writeRecords_form (List.length_pos_iff.mpr hne)
  intro cells hcells
  obtain ⟨texts, htexts, rfl⟩ := List.mem_map.mp hcells
  rw [List.length_map]
  rcases List.mem_cons.mp htexts with rfl | h
  · rfl
  · exact hlen texts h

theorem cellBytes_prefix_write {name : String} {others : List String}
    {records : List (List String)} (hne : cellBytes (Text.encode name) ≠ []) :
    cellBytes (Text.encode name) <+: (write (name :: others) records).1 := by
  have hjoin : cellBytes (Text.encode name) <+: joinCells ((name :: others).map Text.encode) := by
    cases others with
    | nil => exact ⟨[], by simp [joinCells]⟩
    | cons next rest => exact ⟨comma :: joinCells ((next :: rest).map Text.encode), by
        simp [joinCells, List.intercalate]⟩
  have hbody : joinCells ((name :: others).map Text.encode) ≠ [] := fun h =>
    hne (List.prefix_nil.mp (h ▸ hjoin))
  have hrecord :
      cellBytes (Text.encode name) <+: recordBytes ((name :: others).map Text.encode) := by
    rw [recordBytes, if_neg hbody]
    exact hjoin.trans (List.prefix_append _ _)
  rw [write, List.map_cons, writeRecords, if_pos (List.length_map _)]
  exact hrecord.trans (List.prefix_append _ _)

/-- A table whose texts have no white space around them is read back from what was written. -/
theorem read_write {header : List String} {records : List (List String)} (hne : header ≠ [])
    (hmark : ¬Text.byteOrderMark <+: (write header records).1)
    (hlen : ∀ texts ∈ records, texts.length = header.length)
    (htrim : ∀ texts ∈ header :: records, texts.map Text.trim = texts) :
    ∃ doc, Document.read (write header records).1 = .ok doc ∧ doc.header = header ∧
      doc.records.map (·.map Record.cells) = records.map .ok := by
  obtain ⟨doc, hdoc, hheader, hrecords⟩ := read_of_form (write_form hne hlen).1 hmark hlen
  refine ⟨doc, hdoc, hheader.trans (htrim header List.mem_cons_self), hrecords.trans ?_⟩
  apply List.map_congr_left
  intro texts htexts
  rw [htrim texts (List.mem_cons_of_mem _ htexts)]

end BenchTables.Csv
