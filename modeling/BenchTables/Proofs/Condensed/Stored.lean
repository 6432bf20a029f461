import BenchTables.Proofs.Condensed.RoundTrip
import BenchTables.Proofs.Files.Writing
import BenchTables.Session

/-!
# Condensed tables in files

A condensed table that is written to a file and read from it comes back row by row
(`CondensedRow.ComesBackAs`), and the rows that came back are written as the same bytes.
`writeTable_lossless` states that for the two kinds of table.
-/

namespace BenchTables

open Files

variable {n : ℕ}

namespace CondensedRow

/-- A row comes back as another one: with its identifier and its integers, and with each quantity
read from the two decimals of the quantity at the same place. -/
structure ComesBackAs (row back : CondensedRow n) : Prop where
  id : back.id = row.id
  dbSize : back.dbSize = row.dbSize
  rate : back.rate = row.rate
  quantities : ∀ i : Fin n,
    Decimal.readFloat (Decimal.twoPlaces (row.quantities.get i)).toList =
      .ok (back.quantities.get i)

theorem comesBackAs_reread (row : CondensedRow n) : row.ComesBackAs row.reread where
  id := rfl
  dbSize := rfl
  rate := rfl
  quantities i := by
    rw [Decimal.readFloat_twoPlaces, reread_get]

end CondensedRow

open CondensedRow

/-- Rows written to a file come back from it, and what came back is written over the file as the
same bytes. -/
def Schema.Lossless (schema : Schema n) (tree : FileTree) (path : String)
    (rows : List (CondensedRow n)) : Prop :=
  let written := tree.writeTable path schema.header (rows.map cells)
  written.2 = .ok () ∧
    ∃ back, Session.condensedAt schema written.1 path = .ok back ∧
      List.Forall₂ ComesBackAs rows back ∧
      let again := written.1.writeTable path schema.header (back.map cells)
      again.2 = .ok () ∧ again.1.read path = written.1.read path

theorem write_cells_fault (schema : Schema n) (rows : List (CondensedRow n)) :
    (Csv.write schema.header (rows.map cells)).2 = none := by
  refine (Csv.write_form (List.cons_ne_nil _ _) fun texts htexts => ?_).2
  obtain ⟨row, -, rfl⟩ := List.mem_map.mp htexts
  exact cells_length schema row

theorem writeTable_cells {tree : FileTree} {path : String} (h : tree.Takes path)
    (schema : Schema n) (rows : List (CondensedRow n)) :
    tree.writeTable path schema.header (rows.map cells) =
      ((tree.write path (Csv.write schema.header (rows.map cells)).1).1, .ok ()) :=
  h.writeTable_eq (write_cells_fault schema rows)

theorem lossless_of_distinct {schema : Schema n} (hdistinct : schema.Distinct)
    (htrimmed : schema.header.map Text.trim = schema.header) {tree : FileTree} {path : String}
    (hpath : tree.Takes path) {rows : List (CondensedRow n)}
    (hids : ∀ row ∈ rows, Text.trim row.id = row.id) : schema.Lossless tree path rows := by
  have hwritten := writeTable_cells hpath schema rows
  have hread := FileTree.read_write_self
    (hpath.write_ok (Csv.write schema.header (rows.map cells)).1)
  -- What came back is written with the same cells, so the second file is the first one again.
  have hcells : (rows.map reread).map cells = rows.map cells := by
    rw [List.map_map]
    exact List.map_congr_left fun row _ => cells_reread row
  rw [Schema.Lossless, hwritten]
  refine ⟨rfl, rows.map reread, ?_, ?_, ?_, ?_⟩
  · rw [Session.condensedAt, hread]
    exact readTable_write hdistinct htrimmed path hids
  · rw [List.forall₂_map_right_iff, List.forall₂_same]
    exact fun row _ => comesBackAs_reread row
  · rw [writeTable_cells (hpath.write path _)]
  · rw [writeTable_cells (hpath.write path _), hcells, hread]
    exact FileTree.read_write_self ((hpath.write path _).write_ok _)

/-- Condensed tables of both kinds lose nothing on their way through a file but what their two
decimals leave out, and nothing at all on the way after that. -/
theorem writeTable_lossless {tree : FileTree} {path : String} (hpath : tree.Takes path)
    (bandwidth : List BandwidthRow) (latency : List LatencyRow)
    (hbandwidth : ∀ row ∈ bandwidth, Text.trim row.id = row.id)
    (hlatency : ∀ row ∈ latency, Text.trim row.id = row.id) :
    Schema.bandwidth.Lossless tree path bandwidth ∧ Schema.latency.Lossless tree path latency :=
  ⟨lossless_of_distinct Schema.bandwidth_distinct Schema.bandwidth_trimmed hpath hbandwidth,
    lossless_of_distinct Schema.latency_distinct Schema.latency_trimmed hpath hlatency⟩

theorem writeTable_lossless_fresh :
    Schema.bandwidth.Lossless .fresh "means.csv"
        [⟨"\"a\", b", 1024, 3, #v[-0.0, 1.0 / 0.0]⟩, ⟨"", 0, 0, #v[0.0 / 0.0, 0.125]⟩] ∧
      Schema.latency.Lossless .fresh "means.csv" [] :=
  writeTable_lossless ⟨["means.csv"], by decide, by decide⟩ _ _ (by simp; decide) (by simp)

end BenchTables
