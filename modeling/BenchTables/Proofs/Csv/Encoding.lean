import BenchTables.Proofs.Csv.Spans

/-!
# Encodings of records

A cell can be written bare or in quotes, and what follows a closing quote belongs to it.
`CellForm`, `RecordForm` and `TextForm` say which bytes encode a cell, a record and the records
of a text.  The scan recovers the records from every encoding of them (`Scan.cells_run`), and
what the writer writes is one (`writeRecords_form`).
-/

namespace BenchTables.Csv

/-! ## Forms -/

/-- The bytes that can be written for a cell. -/
inductive CellForm : (written content : List UInt8) → Prop where
  | bare (bytes : List UInt8) (h : ∀ b ∈ bytes, ByteKind.of b = .plain) : CellForm bytes bytes
  | quoted (body tail : List UInt8) (h : ∀ b ∈ tail, ByteKind.of b = .plain) :
      CellForm (quote :: (doubleQuotes body ++ quote :: tail)) (body ++ tail)

/-- The bytes that can be written for a record, without its line end. -/
inductive RecordForm : (written : List UInt8) → (cells : List (List UInt8)) → Prop where
  | last {w c : List UInt8} (h : CellForm w c) : RecordForm w [c]
  | cons {w c ws : List UInt8} {cs : List (List UInt8)} (h : CellForm w c)
      (hrest : RecordForm ws cs) : RecordForm (w ++ comma :: ws) (c :: cs)

/-- The bytes that can be written for records.  A line end of two bytes is a line end and an empty
line. -/
inductive TextForm : (written : List UInt8) → (records : List (List (List UInt8))) → Prop where
  | nil : TextForm [] []
  | blank {b : UInt8} {w : List UInt8} {rs : List (List (List UInt8))}
      (hb : ByteKind.of b = .lineEnd) (hrest : TextForm w rs) : TextForm (b :: w) rs
  | unended {w : List UInt8} {cs : List (List UInt8)} (h : RecordForm w cs) (hne : w ≠ []) :
      TextForm w [cs]
  | record {w : List UInt8} {cs : List (List UInt8)} {b : UInt8} {ws : List UInt8}
      {rs : List (List (List UInt8))} (h : RecordForm w cs) (hne : w ≠ [])
      (hb : ByteKind.of b = .lineEnd) (hrest : TextForm ws rs) :
      TextForm (w ++ b :: ws) (cs :: rs)

/-- What encodes a cell is the span of that cell. -/
theorem CellForm.span {w c : List UInt8} (h : CellForm w c) : CellSpan w c := by
  have hplain : ∀ b, ByteKind.of b = .plain → ¬EndsCell b ∧ b ≠ quote := by
    intro b hb
    refine ⟨fun hends => ?_, fun hquote => ?_⟩
    · rcases hends with hends | hends <;> rw [hb] at hends <;> cases hends
    · rw [kind_eq_quote_iff.mpr hquote] at hb
      cases hb
  cases h with
  | bare bytes h =>
    exact .bare w (fun b hb => (hplain b (h b (List.mem_of_mem_head? hb))).2)
      fun b hb => (hplain b (h b hb)).1
  | quoted body tail h =>
    exact .quoted body tail (fun b hb => (hplain b (h b (List.mem_of_mem_head? hb))).2)
      fun b hb => (hplain b (h b hb)).1

theorem RecordForm.span {w : List UInt8} {cs : List (List UInt8)} (h : RecordForm w cs) :
    RecordSpan w cs := by
  induction h with
  | last h => exact .single h.span
  | cons h _ ih => exact .cons h.span ih

/-! ## The scan over an encoding -/

namespace Scan

variable (start p : Position)

/-- The scan recovers the records from every encoding of them. -/
theorem cells_run {w : List UInt8} {rs : List (List (List UInt8))} (h : TextForm w rs) :
    (run ⟨.between, start, p, [], []⟩ w).map RawRecord.cells = rs := by
  induction h generalizing start p with
  | nil => rfl
  | blank hb _ ih =>
    rw [run, step_between_lineEnd _ _ _ _ hb]
    exact ih _ _
  | @unended w cs h hne =>
    obtain ⟨mode, done, last, hpass, hcells, hleaves⟩ :=
      passes_record start p [] h.span (Or.inl rfl)
    have hrun := hpass []
    rw [List.append_nil] at hrun
    rw [hrun, run, finish, if_neg (hleaves.begun hne)]
    exact congrArg (fun r => [r]) hcells
  | @record w cs b ws rs h hne hb _ ih =>
    obtain ⟨mode, done, last, hpass, hcells, hleaves⟩ :=
      passes_record start p [] h.span (Or.inl rfl)
    rw [hpass, run, step_lineEnd _ _ _ _ hleaves.unquoted (hleaves.begun hne) hb, List.map_cons,
      hcells]
    exact congrArg (cs :: ·) (ih _ _)

end Scan

/-- The records of an encoding are cut from its text. -/
theorem cells_cut {w : List UInt8} {rs : List (List (List UInt8))} (h : TextForm w rs)
    (hmark : ¬Text.byteOrderMark <+: w) : (cut w).map RawRecord.cells = rs := by
  have hdrop : Text.dropByteOrderMark w = w := by
    rw [Text.dropByteOrderMark, if_neg (by rwa [List.isPrefixOf_iff_prefix])]
  rw [cut, hdrop]
  exact Scan.cells_run _ _ h

/-- The records of an encoding are cut from its text behind a byte order mark. -/
theorem cells_cut_marked {w : List UInt8} {rs : List (List (List UInt8))} (h : TextForm w rs) :
    (cut (Text.byteOrderMark ++ w)).map RawRecord.cells = rs := by
  have hdrop : Text.dropByteOrderMark (Text.byteOrderMark ++ w) = w := by
    rw [Text.dropByteOrderMark, if_pos (List.isPrefixOf_iff_prefix.mpr (List.prefix_append _ _)),
      List.drop_left]
  rw [cut, hdrop]
  exact Scan.cells_run _ _ h

/-! ## What the writer writes -/

theorem cellBytes_form (cell : List UInt8) : CellForm (cellBytes cell) cell := by
  rw [cellBytes, openCell, closeCell]
  split
  · simpa using CellForm.quoted cell [] (by simp)
  next hplain =>
    rw [List.append_nil]
    exact CellForm.bare cell (by simpa [needsQuotes] using hplain)

theorem joinCells_form {cells : List (List UInt8)} (hne : cells ≠ []) :
    RecordForm (joinCells cells) cells := by
  induction cells with
  | nil => exact absurd rfl hne
  | cons cell rest ih =>
    cases rest with
    | nil => simpa [joinCells] using RecordForm.last (cellBytes_form cell)
    | cons next others =>
      have hjoin : joinCells (cell :: next :: others) =
          cellBytes cell ++ comma :: joinCells (next :: others) := by
        simp [joinCells, List.intercalate]
      rw [hjoin]
      exact RecordForm.cons (cellBytes_form cell) (ih (List.cons_ne_nil next others))

/-- The cells of a record without bytes are one empty cell. -/
theorem eq_singleton_of_joinCells_eq_nil {cells : List (List UInt8)} (hne : cells ≠ [])
    (h : joinCells cells = []) : cells = [[]] := by
  have hform := joinCells_form hne
  generalize joinCells cells = w at h hform
  cases hform with
  | last hcell =>
    cases hcell with
    | bare bytes _ => rw [h]
    | quoted body tail _ => cases h
  | cons hcell hrest => exact absurd h (List.append_ne_nil_of_right_ne_nil _ (List.cons_ne_nil _ _))

/-- A record is written as bytes that encode it, and as some bytes at least. -/
theorem recordBytes_form {cells : List (List UInt8)} (hne : cells ≠ []) :
    ∃ w, recordBytes cells = w ++ [lineFeed] ∧ RecordForm w cells ∧ w ≠ [] := by
  rw [recordBytes]
  by_cases h : joinCells cells = []
  · -- A record without bytes would read as a blank line, so its empty cell is quoted.
    refine ⟨[quote, quote], by rw [if_pos h], ?_, List.cons_ne_nil _ _⟩
    rw [eq_singleton_of_joinCells_eq_nil hne h]
    exact RecordForm.last (CellForm.quoted [] [] (by simp))
  · exact ⟨joinCells cells, by rw [if_neg h], joinCells_form hne, h⟩

/-- Records of one length are written as an encoding of them. -/
theorem writeRecords_form {width : ℕ} (hwidth : 0 < width) {records : List (List (List UInt8))}
    (h : ∀ cells ∈ records, cells.length = width) :
    TextForm (writeRecords width records).1 records ∧ (writeRecords width records).2 = none := by
  induction records with
  | nil => exact ⟨TextForm.nil, rfl⟩
  | cons cells rest ih =>
    obtain ⟨hform, hfault⟩ := ih fun c hc => h c (List.mem_cons_of_mem cells hc)
    have hlen := h cells List.mem_cons_self
    obtain ⟨w, hw, hrecord, hne⟩ := recordBytes_form (List.ne_nil_of_length_pos (hlen ▸ hwidth))
    rw [writeRecords, if_pos hlen]
    refine ⟨?_, hfault⟩
    change TextForm (recordBytes cells ++ (writeRecords width rest).1) _
    rw [hw, List.append_assoc]
    exact TextForm.record hrecord hne rfl hform

end BenchTables.Csv
