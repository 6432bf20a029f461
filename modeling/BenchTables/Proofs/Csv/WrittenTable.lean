import BenchTables.Condensed.Reader
import BenchTables.Measurement.Reader
import BenchTables.Proofs.Csv.TableEncoding
import BenchTables.Proofs.Files.Writing

/-!
# The text of a table that is written

What is written for a table is the text of one of its encodings (`tableText_encoding`,
`write_eq_encode`).  It begins with a byte order mark of its own only where the first cell of the
header begins with one and is written bare (`head?_tableText_eq_mark_iff`).  So the reader gives a
table back from every encoding of it, and from what was written wherever that begins with no mark
(`table_of_every_encoding`).
-/

namespace BenchTables.Csv

/-- A cell as it is written. -/
def cellText (cell : String) : String :=
  if cell.toList.any isSpecial then "\"" ++ doubledQuotes cell ++ "\"" else cell

def joinedText (cells : List String) : String :=
  String.intercalate "," (cells.map cellText)

/-- A record as it is written, without its line feed. -/
def recordText (cells : List String) : String :=
  if joinedText cells = "" then "\"\"" else joinedText cells

def tableText (records : List (List String)) : String :=
  String.join (records.map fun cells => recordText cells ++ "\n")

/-! ## Cells -/

theorem any_utf8EncodeChar (c : Char) :
    ((String.utf8EncodeChar c).any fun b => ByteKind.of b ≠ .plain) = isSpecial c := by
  cases hc : isSpecial c with
  | true =>
    simp only [isSpecial, Bool.or_eq_true, decide_eq_true_eq] at hc
    rcases hc with ((rfl | rfl) | rfl) | rfl <;> decide
  | false =>
    rw [List.any_eq_false]
    intro b hb
    simp [kind_plain_of_mem hc hb]

theorem needsQuotes_encode (cell : String) :
    needsQuotes (Text.encode cell) = cell.toList.any isSpecial := by
  rw [needsQuotes, Text.encode, Text.encodeChars, List.any_flatMap]
  congr 1
  funext c
  exact any_utf8EncodeChar c

theorem encode_cellText (cell : String) :
    Text.encode (cellText cell) = cellBytes (Text.encode cell) := by
  rw [cellText, cellBytes, openCell, closeCell, needsQuotes_encode]
  split
  · rw [encode_append, encode_append, encode_doubledQuotes]
    rfl
  · exact (List.append_nil _).symm

theorem isPadding_empty : IsPadding "" := by
  intro c hc
  cases hc

theorem quoted_encoding (cell : String) :
    CellEncoding ("\"" ++ doubledQuotes cell ++ "\"") cell := by
  have hquoted : CellEncoding ("\"" ++ doubledQuotes ("" ++ cell ++ "") ++ "\"" ++ "") cell :=
    .quoted rfl rfl isPadding_empty
  simpa using hquoted

theorem cellText_encoding (cell : String) : CellEncoding (cellText cell) cell := by
  rw [cellText]
  split
  · exact quoted_encoding cell
  next hplain =>
    have hbare : CellEncoding ("" ++ cell ++ "") cell :=
      .bare isPadding_empty isPadding_empty (Bool.eq_false_of_not_eq_true hplain)
    simpa using hbare

/-! ## Records -/

theorem joinedText_cons_cons (cell next : String) (rest : List String) :
    joinedText (cell :: next :: rest) = cellText cell ++ "," ++ joinedText (next :: rest) :=
  String.intercalate_cons_cons

theorem encode_joinedText (cells : List String) :
    Text.encode (joinedText cells) = joinCells (cells.map Text.encode) := by
  induction cells with
  | nil => rfl
  | cons cell others ih =>
    cases others with
    | nil =>
      rw [joinedText, List.map_singleton, String.intercalate_singleton, encode_cellText]
      exact (List.append_nil _).symm
    | cons next rest =>
      have hjoin : joinCells ((cell :: next :: rest).map Text.encode) =
          cellBytes (Text.encode cell) ++ comma :: joinCells ((next :: rest).map Text.encode) := by
        simp [joinCells, List.intercalate]
      rw [joinedText_cons_cons, encode_append, encode_append, encode_cellText, ih, hjoin,
        List.append_assoc]
      rfl

theorem joinedText_encoding {cells : List String} (hne : cells ≠ []) :
    RecordEncoding (joinedText cells) cells := by
  induction cells with
  | nil => exact absurd rfl hne
  | cons cell others ih =>
    cases others with
    | nil =>
      rw [joinedText, List.map_singleton, String.intercalate_singleton]
      exact .last (cellText_encoding cell)
    | cons next rest =>
      rw [joinedText_cons_cons]
      exact .cons (cellText_encoding cell) (ih (List.cons_ne_nil _ _))

/-- The cells of a record without text are one empty cell. -/
theorem eq_of_joinedText_eq_empty {cells : List String} (hne : cells ≠ [])
    (h : joinedText cells = "") : cells = [""] := by
  have hbytes : joinCells (cells.map Text.encode) = [] := by
    rw [← encode_joinedText, h]
    rfl
  have hone := eq_singleton_of_joinCells_eq_nil (mt List.map_eq_nil_iff.mp hne) hbytes
  obtain ⟨cell, rfl, hcell⟩ := List.map_eq_singleton_iff.mp hone
  rw [not_imp_comm.mp encode_ne_nil (not_not.mpr hcell)]

theorem recordText_ne_empty (cells : List String) : recordText cells ≠ "" := by
  rw [recordText]
  split
  · decide
  next hne => exact hne

theorem recordText_encoding {cells : List String} (hne : cells ≠ []) :
    RecordEncoding (recordText cells) cells := by
  rw [recordText]
  split
  next hempty =>
    -- A record without bytes would read as an empty line, so its empty cell is quoted.
    rw [eq_of_joinedText_eq_empty hne hempty]
    have hquotes : "\"\"" = "\"" ++ doubledQuotes "" ++ "\"" := by decide
    rw [hquotes]
    exact .last (quoted_encoding "")
  · exact joinedText_encoding hne

theorem encode_recordText (cells : List String) :
    Text.encode (recordText cells ++ "\n") = recordBytes (cells.map Text.encode) := by
  rw [encode_append, recordText, recordBytes, ← encode_joinedText]
  split
  next hempty =>
    rw [hempty]
    rfl
  next hne =>
    rw [if_neg (encode_ne_nil hne)]
    rfl

/-! ## Tables -/

theorem tableText_cons (cells : List String) (records : List (List String)) :
    tableText (cells :: records) = recordText cells ++ "\n" ++ tableText records :=
  String.join_cons

theorem tableText_encoding {records : List (List String)} (h : ∀ cells ∈ records, cells ≠ []) :
    TableEncoding (tableText records) records := by
  induction records with
  | nil => exact TableEncoding.nil
  | cons cells rest ih =>
    rw [tableText_cons]
    exact .record (recordText_encoding (h cells List.mem_cons_self)) (recordText_ne_empty cells)
      (by decide) (ih fun c hc => h c (List.mem_cons_of_mem _ hc))

theorem writeRecords_eq_encode {width : ℕ} {records : List (List String)}
    (h : ∀ cells ∈ records, cells.length = width) :
    writeRecords width (records.map (·.map Text.encode)) =
      (Text.encode (tableText records), none) := by
  induction records with
  | nil => rfl
  | cons cells rest ih =>
    have hwidth : (cells.map Text.encode).length = width := by
      rw [List.length_map, h cells List.mem_cons_self]
    have hrest := ih fun c hc => h c (List.mem_cons_of_mem _ hc)
    rw [List.map_cons, writeRecords, if_pos hwidth, hrest, tableText_cons, encode_append,
      encode_recordText]

theorem write_eq_encode {header : List String} {records : List (List String)}
    (hlen : ∀ cells ∈ records, cells.length = header.length) :
    write header records = (Text.encode (tableText (header :: records)), none) := by
  apply writeRecords_eq_encode
  intro cells hcells
  rcases List.mem_cons.mp hcells with rfl | hmem
  · rfl
  · exact hlen cells hmem

/-! ## The first character -/

theorem head?_cellText_eq_mark_iff (cell : String) :
    (cellText cell).toList.head? = some markCharacter ↔
      cell.toList.head? = some markCharacter ∧ ∀ c ∈ cell.toList, isSpecial c = false := by
  rw [cellText]
  split
  next hspecial =>
    obtain ⟨c, hc, hspecial⟩ := List.any_eq_true.mp hspecial
    constructor
    · intro h
      rw [String.append_assoc, String.toList_append, List.head?_append] at h
      cases h
    · rintro ⟨-, hplain⟩
      rw [hplain c hc] at hspecial
      cases hspecial
  next hplain =>
    have hcell : ∀ c ∈ cell.toList, isSpecial c = false := by
      simpa using hplain
    exact ⟨fun h => ⟨h, hcell⟩, And.left⟩

theorem head?_joinedText_eq_mark_iff (name : String) (others : List String) :
    (joinedText (name :: others)).toList.head? = some markCharacter ↔
      (cellText name).toList.head? = some markCharacter := by
  cases others with
  | nil => rfl
  | cons next rest =>
    rw [joinedText_cons_cons, String.append_assoc, String.toList_append, List.head?_append]
    cases (cellText name).toList.head? with
    | none =>
      -- Behind an empty cell there is a comma.
      constructor
      · intro h
        rw [Option.none_or, String.toList_append, List.head?_append] at h
        cases h
      · intro h
        cases h
    | some c => rfl

/-- What is written begins with a mark of its own where the first cell of the header does and is
written bare. -/
theorem head?_tableText_eq_mark_iff (header : List String) (records : List (List String)) :
    (tableText (header :: records)).toList.head? = some markCharacter ↔
      ∃ name others, header = name :: others ∧ name.toList.head? = some markCharacter ∧
        ∀ c ∈ name.toList, isSpecial c = false := by
  have hrecord :
      (tableText (header :: records)).toList.head? = (recordText header).toList.head? := by
    obtain ⟨c, cs, hchars⟩ := List.exists_cons_of_ne_nil
      (mt String.toList_eq_nil_iff.mp (recordText_ne_empty header))
    rw [tableText_cons, String.append_assoc, String.toList_append, hchars]
    rfl
  have hjoined : (recordText header).toList.head? = some markCharacter ↔
      (joinedText header).toList.head? = some markCharacter := by
    rw [recordText]
    split
    next hempty =>
      rw [hempty]
      decide
    next => rfl
  rw [hrecord, hjoined]
  cases header with
  | nil =>
    constructor
    · intro h
      cases h
    · rintro ⟨name, others, h, -⟩
      cases h
  | cons name others =>
    rw [head?_joinedText_eq_mark_iff, head?_cellText_eq_mark_iff]
    constructor
    · intro h
      exact ⟨name, others, rfl, h⟩
    · rintro ⟨_, _, heq, h⟩
      cases heq
      exact h

end BenchTables.Csv

namespace BenchTables

open Files Csv

/-! ## Readers and writer -/

theorem measurements_of_document {source : String} {bytes : List UInt8} {doc : Document}
    (h : Document.read bytes = .ok doc) :
    Measurement.readTable source bytes = Measurement.ofDocument source doc := by
  rw [Measurement.readTable, h]
  rfl

theorem rows_of_document {n : ℕ} {schema : Schema n} {source : String} {bytes : List UInt8}
    {doc : Document} (h : Document.read bytes = .ok doc) :
    CondensedRow.readTable schema source bytes = CondensedRow.ofDocument schema source doc := by
  rw [CondensedRow.readTable, h]
  rfl

/-- A table is read from every text that encodes it and begins with no mark of its own, with or
without a mark in front, by the readers of both kinds of tables.  What is written for it is such a
text, except that it begins with a mark of its own where the first cell of the header does and is
written bare. -/
theorem table_of_every_encoding {header : List String} {records : List (List String)}
    (hne : header ≠ []) (hlen : ∀ cells ∈ records, cells.length = header.length)
    (htrim : ∀ cells ∈ header :: records, ∀ cell ∈ cells, Text.trim cell = cell) :
    (∀ text mark, TableEncoding text (header :: records) →
      text.toList.head? ≠ some markCharacter → (mark = [] ∨ mark = Text.byteOrderMark) →
      ∃ doc, Document.read (mark ++ Text.encode text) = .ok doc ∧ doc.header = header ∧
        doc.records.map (·.map Record.cells) = records.map .ok ∧
        (∀ source, Measurement.readTable source (mark ++ Text.encode text) =
          Measurement.ofDocument source doc) ∧
        ∀ (n : ℕ) (schema : Schema n) (source : String),
          CondensedRow.readTable schema source (mark ++ Text.encode text) =
            CondensedRow.ofDocument schema source doc) ∧
    (∀ (tree : FileTree) (path : String), tree.Takes path →
      ∃ text, TableEncoding text (header :: records) ∧
        (tree.writeTable path header records).2 = .ok () ∧
        (tree.writeTable path header records).1.read path = .ok (Text.encode text) ∧
        (text.toList.head? = some markCharacter ↔
          ∃ name others, header = name :: others ∧ name.toList.head? = some markCharacter ∧
            ∀ c ∈ name.toList, isSpecial c = false)) := by
  constructor
  · intro text mark hencoding hstart hmark
    have hcells : ∀ cells ∈ header :: records, cells.map Text.trim = cells := by
      intro cells hmem
      rw [List.map_congr_left (htrim cells hmem), List.map_id']
    obtain ⟨doc, hdoc, hheader, hrecords⟩ := read_of_encoding hencoding hstart hlen hcells hmark
    exact ⟨doc, hdoc, hheader, hrecords, fun _ => measurements_of_document hdoc,
      fun _ _ _ => rows_of_document hdoc⟩
  · intro tree path htakes
    have hwrite := write_eq_encode hlen
    have hstored := htakes.writeTable_eq (congrArg Prod.snd hwrite)
    refine ⟨tableText (header :: records), tableText_encoding ?_, ?_, ?_,
      head?_tableText_eq_mark_iff header records⟩
    · intro cells hmem
      rcases List.mem_cons.mp hmem with rfl | hmem
      · exact hne
      · exact List.ne_nil_of_length_pos (hlen cells hmem ▸ List.length_pos_iff.mpr hne)
    · rw [hstored]
    · rw [hstored, hwrite]
      exact FileTree.read_write_self (htakes.write_ok _)

/-- A text with an empty line, white space around cells and between quotes and commas, a quoted line
feed, and no end to its last line. -/
def looseText : String :=
  "\r\nEXPID\u00a0,\" rate\"\r\n\"a,\"\"b\"\"\n\"\t,1"

theorem looseText_encoding : TableEncoding looseText [["EXPID", "rate"], ["a,\"b\"", "1"]] := by
  have hid : CellEncoding ("" ++ "EXPID" ++ "\u00a0") "EXPID" :=
    .bare (by decide) (by decide) (by decide)
  have hrate : CellEncoding ("\"" ++ doubledQuotes (" " ++ "rate" ++ "") ++ "\"" ++ "") "rate" :=
    .quoted (by decide) (by decide) (by decide)
  have hname : CellEncoding
      ("\"" ++ doubledQuotes ("" ++ "a,\"b\"" ++ "\n") ++ "\"" ++ "\t") "a,\"b\"" :=
    .quoted (by decide) (by decide) (by decide)
  have hone : CellEncoding ("" ++ "1" ++ "") "1" :=
    .bare (by decide) (by decide) (by decide)
  have hheader := RecordEncoding.cons hid (.last hrate)
  have hrecord := RecordEncoding.cons hname (.last hone)
  have hloose := TableEncoding.emptyLine (by decide : "\r\n" ∈ ["\n", "\r\n", "\r"])
    (.record hheader (by decide) (by decide : "\r\n" ∈ ["\n", "\r\n", "\r"])
      (.unended hrecord (by decide)))
  refine Eq.mp (congrArg (TableEncoding · _) ?_) hloose
  decide

theorem table_of_every_encoding_looseText :
    (∃ doc, Document.read (Text.byteOrderMark ++ Text.encode looseText) = .ok doc ∧
      doc.header = ["EXPID", "rate"] ∧
      doc.records.map (·.map Record.cells) = [.ok ["a,\"b\"", "1"]]) ∧
    ∃ text, TableEncoding text [["EXPID", "rate"], ["a,\"b\"", "1"]] ∧
      (FileTree.fresh.writeTable "means.csv" ["EXPID", "rate"] [["a,\"b\"", "1"]]).1.read
        "means.csv" = .ok (Text.encode text) := by
  obtain ⟨hread, hwritten⟩ := table_of_every_encoding
    (by decide : ["EXPID", "rate"] ≠ [])
    (by decide : ∀ cells ∈ [["a,\"b\"", "1"]], cells.length = 2) (by decide)
  obtain ⟨doc, hdoc, hheader, hrecords, -⟩ := hread looseText Text.byteOrderMark looseText_encoding
    (by decide) (Or.inr rfl)
  obtain ⟨text, htext, -, hstored, -⟩ := hwritten .fresh "means.csv"
    ⟨["means.csv"], by decide, by decide⟩
  exact ⟨⟨doc, hdoc, hheader, hrecords⟩, text, htext, hstored⟩

/-- What is written for a header that begins with a mark is no encoding of it with a text that
begins with none, and is read as another header. -/
theorem marked_header_lost :
    let header := ["\uFEFFdb_size", "rate", "BW_Total_Norm"]
    let records := [["1", "1", "1.00"]]
    (∀ cells ∈ header :: records, ∀ cell ∈ cells, Text.trim cell = cell) ∧
    (Document.read (Csv.write header records).1).map Document.header =
      .ok ["db_size", "rate", "BW_Total_Norm"] ∧
    ¬∃ text mark, TableEncoding text (header :: records) ∧
      text.toList.head? ≠ some markCharacter ∧ (mark = [] ∨ mark = Text.byteOrderMark) ∧
      (Csv.write header records).1 = mark ++ Text.encode text := by
  intro header records
  have htrim : ∀ cells ∈ header :: records, ∀ cell ∈ cells, Text.trim cell = cell := by
    decide +kernel
  have hread : (Document.read (Csv.write header records).1).map Document.header =
      .ok ["db_size", "rate", "BW_Total_Norm"] := by
    decide +kernel
  refine ⟨htrim, hread, ?_⟩
  rintro ⟨text, mark, hencoding, hstart, hmark, hbytes⟩
  -- As an encoding it would be read as the header that it was written for.
  have hcells : ∀ cells ∈ header :: records, cells.map Text.trim = cells := by
    decide +kernel
  obtain ⟨doc, hdoc, hheader, -⟩ :=
    read_of_encoding hencoding hstart (by decide) hcells hmark
  rw [hbytes, hdoc] at hread
  have hsame : doc.header = ["db_size", "rate", "BW_Total_Norm"] := Except.ok.inj hread
  rw [hheader] at hsame
  exact absurd hsame (by decide)

end BenchTables
