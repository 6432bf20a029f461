import BenchTables.Csv.Document
import BenchTables.Csv.Writer
import Mathlib.Data.Nat.Notation

/-!
# Cells and records in bytes

A cell that begins with a quote goes on to the quote that closes it and from there, like every other
cell, to the next comma or line end.  `CellSpan` and `RecordSpan` say which bytes are a cell and a
record, however they were written, and `OpenRecord` which are a record whose last quote is never
closed.  The scan holds the cells of a span when it has passed it (`Scan.passes_record`,
`Scan.passes_openRecord`).
-/

namespace BenchTables.Csv

/-! ## Spans -/

/-- A byte that ends a cell, where it does not stand in quotes. -/
def EndsCell (b : UInt8) : Prop :=
  ByteKind.of b = .comma ∨ ByteKind.of b = .lineEnd

instance : DecidablePred EndsCell := fun b =>
  inferInstanceAs (Decidable (ByteKind.of b = .comma ∨ ByteKind.of b = .lineEnd))

/-- The bytes of a cell, and what it holds. -/
inductive CellSpan : (bytes content : List UInt8) → Prop where
  /-- Quotes that stand behind other bytes are bytes like these. -/
  | bare (bytes : List UInt8) (hhead : ∀ b ∈ bytes.head?, b ≠ quote)
      (h : ∀ b ∈ bytes, ¬EndsCell b) : CellSpan bytes bytes
  | quoted (body tail : List UInt8) (hhead : ∀ b ∈ tail.head?, b ≠ quote)
      (h : ∀ b ∈ tail, ¬EndsCell b) :
      CellSpan (quote :: (doubleQuotes body ++ quote :: tail)) (body ++ tail)

/-- The bytes of cells, each with the comma behind it. -/
inductive LeadSpan : (bytes : List UInt8) → (cells : List (List UInt8)) → Prop where
  | nil : LeadSpan [] []
  | cons {w c ws : List UInt8} {cs : List (List UInt8)} (h : CellSpan w c)
      (hrest : LeadSpan ws cs) : LeadSpan (w ++ comma :: ws) (c :: cs)

/-- The bytes of a record, without its line end. -/
inductive RecordSpan : (bytes : List UInt8) → (cells : List (List UInt8)) → Prop where
  | intro {w v c : List UInt8} {cs : List (List UInt8)} (hlead : LeadSpan w cs)
      (hlast : CellSpan v c) : RecordSpan (w ++ v) (cs ++ [c])

/-- The bytes of a record whose last cell is in quotes that are never closed. -/
inductive OpenRecord : (bytes : List UInt8) → (cells : List (List UInt8)) → Prop where
  | intro {w : List UInt8} {cs : List (List UInt8)} (hlead : LeadSpan w cs) (body : List UInt8) :
      OpenRecord (w ++ quote :: doubleQuotes body) (cs ++ [body])

section Spans

variable {b : UInt8} {w c ws text : List UInt8} {cs : List (List UInt8)}

theorem kind_eq_quote_iff : ByteKind.of b = .quote ↔ b = quote := by
  constructor
  · intro h
    by_cases hb : b = quote
    · exact hb
    · rw [ByteKind.of, if_neg hb] at h
      split at h
      · cases h
      · split at h <;> cases h
  · intro hb
    rw [hb]
    rfl

theorem kind_eq_comma_iff : ByteKind.of b = .comma ↔ b = comma := by
  constructor
  · intro h
    by_cases hb : b = comma
    · exact hb
    · rw [ByteKind.of, if_neg hb] at h
      split at h
      · cases h
      · split at h <;> cases h
  · intro hb
    rw [hb]
    rfl

theorem RecordSpan.single (h : CellSpan w c) : RecordSpan w [c] :=
  .intro .nil h

theorem RecordSpan.cons (h : CellSpan w c) (hrest : RecordSpan ws cs) :
    RecordSpan (w ++ comma :: ws) (c :: cs) := by
  cases hrest with
  | @intro w' v d ds hlead hlast =>
    have hall := RecordSpan.intro (.cons h hlead) hlast
    rwa [List.append_assoc] at hall

theorem OpenRecord.cons (h : CellSpan w c) (hrest : OpenRecord ws cs) :
    OpenRecord (w ++ comma :: ws) (c :: cs) := by
  cases hrest with
  | @intro w' ds hlead body =>
    have hall := OpenRecord.intro (.cons h hlead) body
    rwa [List.append_assoc] at hall

end Spans

/-! ## The scan over spans -/

/-- The scan passes over bytes, which end no record, and comes to another scan. -/
def Scan.Passes (s : Scan) (bytes : List UInt8) (s' : Scan) : Prop :=
  ∀ rest, s.run (bytes ++ rest) = s'.run rest

namespace Scan

theorem Passes.nil (s : Scan) : s.Passes [] s := fun _ => rfl

theorem Passes.trans {s t u : Scan} {bs ds : List UInt8} (h₁ : s.Passes bs t)
    (h₂ : t.Passes ds u) : s.Passes (bs ++ ds) u := by
  intro rest
  rw [List.append_assoc, h₁, h₂]

theorem Passes.cons {s t u : Scan} {b : UInt8} {bs : List UInt8} (h₁ : s.step b = (none, t))
    (h₂ : t.Passes bs u) : s.Passes (b :: bs) u := by
  intro rest
  rw [List.cons_append, run, h₁]
  exact h₂ rest

/-- The position after bytes. -/
def advanced (p : Position) (bytes : List UInt8) : Position :=
  bytes.foldl Position.advance p

variable (start p : Position) (cells : List (List UInt8)) (cell : List UInt8) {b : UInt8}

/-- Outside quotes a byte that does not end the cell belongs to it. -/
theorem step_bare {mode : Mode} (hmode : mode ≠ .quoted) (hfirst : mode = .bare ∨ b ≠ quote)
    (hb : ¬EndsCell b) :
    step ⟨mode, start, p, cells, cell⟩ b =
      (none, ⟨.bare, start, p.advance b, cells, b :: cell⟩) := by
  rw [step]
  cases hk : ByteKind.of b with
  | comma => exact absurd (Or.inl hk) hb
  | lineEnd => exact absurd (Or.inr hk) hb
  | quote =>
    obtain rfl := hfirst.resolve_right fun hne => hne (kind_eq_quote_iff.mp hk)
    rfl
  | plain =>
    cases mode with
    | quoted => exact absurd rfl hmode
    | between | fresh | bare | closed => rfl

theorem step_comma {mode : Mode} (hmode : mode ≠ .quoted) :
    step ⟨mode, start, p, cells, cell⟩ comma =
      (none, ⟨.fresh, start, p.advance comma, cell.reverse :: cells, []⟩) := by
  have hb : ByteKind.of comma = .comma := rfl
  rw [step, hb]
  cases mode
  case quoted => exact absurd rfl hmode
  all_goals rfl

theorem step_open {mode : Mode} (hmode : mode = .between ∨ mode = .fresh) :
    step ⟨mode, start, p, cells, cell⟩ quote =
      (none, ⟨.quoted, start, p.advance quote, cells, cell⟩) := by
  rcases hmode with rfl | rfl <;> rfl

theorem step_quoted_quote :
    step ⟨.quoted, start, p, cells, cell⟩ quote =
      (none, ⟨.closed, start, p.advance quote, cells, cell⟩) := rfl

theorem step_closed_quote :
    step ⟨.closed, start, p, cells, cell⟩ quote =
      (none, ⟨.quoted, start, p.advance quote, cells, quote :: cell⟩) := rfl

theorem step_quoted_of_ne (hb : b ≠ quote) :
    step ⟨.quoted, start, p, cells, cell⟩ b =
      (none, ⟨.quoted, start, p.advance b, cells, b :: cell⟩) := by
  have hkind : ByteKind.of b ≠ .quote := fun h => hb (kind_eq_quote_iff.mp h)
  rw [step]
  cases hk : ByteKind.of b
  case quote => exact absurd hk hkind
  all_goals rfl

theorem step_lineEnd {mode : Mode} (hquoted : mode ≠ .quoted) (hbetween : mode ≠ .between)
    (hb : ByteKind.of b = .lineEnd) :
    step ⟨mode, start, p, cells, cell⟩ b =
      (some ⟨start, (cell.reverse :: cells).reverse⟩,
        seek { p.advance b with record := p.record + 1 }) := by
  rw [step, hb]
  cases mode
  case quoted => exact absurd rfl hquoted
  case between => exact absurd rfl hbetween
  all_goals rfl

theorem step_between_lineEnd (hb : ByteKind.of b = .lineEnd) :
    step ⟨.between, start, p, cells, cell⟩ b =
      (none, ⟨.between, start, p.advance b, cells, cell⟩) := by
  rw [step, hb]

theorem passes_bare {mode : Mode} (hmode : mode ≠ .quoted) (bytes : List UInt8)
    (hfirst : mode = .bare ∨ ∀ b ∈ bytes.head?, b ≠ quote) (h : ∀ b ∈ bytes, ¬EndsCell b) :
    Passes ⟨mode, start, p, cells, cell⟩ bytes
      ⟨if bytes = [] then mode else .bare, start, advanced p bytes, cells,
        bytes.reverse ++ cell⟩ := by
  induction bytes generalizing mode p cell with
  | nil => exact Passes.nil _
  | cons b rest ih =>
    have hb := hfirst.imp_right fun hhead => hhead b rfl
    have hstep := step_bare start p cells cell hmode hb (h b List.mem_cons_self)
    have hbare : Mode.bare ≠ .quoted := by decide
    have hrest := ih (p.advance b) (b :: cell) hbare (Or.inl rfl)
      fun c hc => h c (List.mem_cons_of_mem b hc)
    rw [ite_self] at hrest
    rw [if_neg (List.cons_ne_nil b rest), List.reverse_cons, List.append_assoc]
    exact Passes.cons hstep hrest

theorem passes_doubleQuotes (body : List UInt8) :
    Passes ⟨.quoted, start, p, cells, cell⟩ (doubleQuotes body)
      ⟨.quoted, start, advanced p (doubleQuotes body), cells, body.reverse ++ cell⟩ := by
  induction body generalizing p cell with
  | nil => exact Passes.nil _
  | cons b rest ih =>
    rw [List.reverse_cons, List.append_assoc]
    by_cases hb : b = quote
    · subst hb
      exact Passes.cons (step_quoted_quote ..) (Passes.cons (step_closed_quote ..) (ih _ _))
    · have hbytes : doubleQuotes (b :: rest) = b :: doubleQuotes rest := by
        rw [doubleQuotes, List.flatMap_cons, if_neg hb]
        rfl
      rw [hbytes]
      exact Passes.cons (step_quoted_of_ne _ _ _ _ hb) (ih _ _)

/-- A mode in which a cell begins. -/
def Begins (mode : Mode) : Prop := mode = .between ∨ mode = .fresh

theorem Begins.ne_quoted {mode : Mode} (h : Begins mode) : mode ≠ .quoted := by
  rintro rfl
  rcases h with h | h <;> cases h

/-- The mode after the bytes of a cell or record: outside quotes, and before the next record only
if there were no bytes and none before them either. -/
structure Leaves (mode : Mode) (w : List UInt8) (mode' : Mode) : Prop where
  unquoted : mode' ≠ .quoted
  begun : w ≠ [] → mode' ≠ .between
  fresh : mode = .fresh → mode' ≠ .between

/-- After a cell the scan holds its content. -/
theorem passes_cell {w c : List UInt8} (h : CellSpan w c) {mode : Mode} (hmode : Begins mode) :
    ∃ mode', Passes ⟨mode, start, p, cells, []⟩ w ⟨mode', start, advanced p w, cells, c.reverse⟩ ∧
      Leaves mode w mode' := by
  cases h with
  | bare bytes hhead h =>
    refine ⟨if w = [] then mode else .bare, ?_, ⟨?_, ?_, ?_⟩⟩
    · simpa using passes_bare start p cells [] hmode.ne_quoted w (Or.inr hhead) h
    · split
      · exact hmode.ne_quoted
      · decide
    · intro hne
      rw [if_neg hne]
      decide
    · rintro rfl
      split <;> decide
  | quoted body tail hhead h =>
    -- What follows the closing quote is passed over as if the cell were bare.
    have hclosed : Mode.closed ≠ .quoted := by decide
    have hbody := passes_doubleQuotes start (p.advance quote) cells [] body
    have htail := passes_bare start
      ((advanced (p.advance quote) (doubleQuotes body)).advance quote) cells body.reverse hclosed
      tail (Or.inr hhead) h
    rw [List.append_nil] at hbody
    have hall := Passes.cons (step_open start p cells [] hmode)
      (hbody.trans (Passes.cons (step_quoted_quote ..) htail))
    refine ⟨if tail = [] then .closed else .bare, ?_, ⟨?_, fun _ => ?_, fun _ => ?_⟩⟩
    · have hhere : advanced p (quote :: (doubleQuotes body ++ quote :: tail)) =
          advanced ((advanced (p.advance quote) (doubleQuotes body)).advance quote) tail := by
        simp only [advanced, List.foldl_cons, List.foldl_append]
      rw [List.reverse_append, hhere]
      exact hall
    · split <;> decide
    · split <;> decide
    · split <;> decide

/-- After cells with their commas the scan holds them, and a cell begins. -/
theorem passes_lead {w : List UInt8} {cs : List (List UInt8)} (h : LeadSpan w cs) {mode : Mode}
    (hmode : Begins mode) :
    ∃ mode', Passes ⟨mode, start, p, cells, []⟩ w
        ⟨mode', start, advanced p w, cs.reverse ++ cells, []⟩ ∧
      Begins mode' ∧ (w ≠ [] → mode' = .fresh) ∧ (mode = .fresh → mode' = .fresh) := by
  induction h generalizing mode p cells with
  | nil => exact ⟨mode, Passes.nil _, hmode, fun hne => absurd rfl hne, id⟩
  | @cons w c ws cs h _ ih =>
    obtain ⟨mode₁, hpass, hcell⟩ := passes_cell start p cells h hmode
    obtain ⟨mode', hrest, hbegins, -, hfresh⟩ :=
      ih ((advanced p w).advance comma) (c :: cells) (Or.inr rfl)
    have hcomma := step_comma start (advanced p w) cells c.reverse hcell.unquoted
    rw [List.reverse_reverse] at hcomma
    refine ⟨mode', ?_, hbegins, fun _ => hfresh rfl, fun _ => hfresh rfl⟩
    have hhere : advanced p (w ++ comma :: ws) = advanced ((advanced p w).advance comma) ws := by
      simp only [advanced, List.foldl_append, List.foldl_cons]
    rw [hhere, List.reverse_cons, List.append_assoc]
    exact hpass.trans (Passes.cons hcomma hrest)

/-- After a record the scan holds all its cells, the last of them still in progress. -/
theorem passes_record {w : List UInt8} {cs : List (List UInt8)} (h : RecordSpan w cs)
    {mode : Mode} (hmode : Begins mode) :
    ∃ mode' done last,
      Passes ⟨mode, start, p, cells, []⟩ w ⟨mode', start, advanced p w, done, last⟩ ∧
      (last.reverse :: done).reverse = cells.reverse ++ cs ∧ Leaves mode w mode' := by
  cases h with
  | @intro w v c cs hlead hlast =>
    obtain ⟨mode₁, hfirst, hbegins, hbegun, hfresh⟩ := passes_lead start p cells hlead hmode
    obtain ⟨mode', hrest, hleaves⟩ :=
      passes_cell start (advanced p w) (cs.reverse ++ cells) hlast hbegins
    have hall := hfirst.trans hrest
    rw [advanced, advanced, ← List.foldl_append, ← advanced] at hall
    refine ⟨mode', _, _, hall, by simp, hleaves.unquoted, fun hne => ?_, fun hmode => ?_⟩
    · -- Behind a comma there is a cell, even if it has no bytes.
      by_cases hw : w = []
      · subst hw
        exact hleaves.begun hne
      · exact hleaves.fresh (hbegun hw)
    · exact hleaves.fresh (hfresh hmode)

/-- In a record that is never closed the scan stays in quotes. -/
theorem passes_openRecord {w : List UInt8} {cs : List (List UInt8)} (h : OpenRecord w cs)
    {mode : Mode} (hmode : Begins mode) :
    ∃ done last,
      Passes ⟨mode, start, p, cells, []⟩ w ⟨.quoted, start, advanced p w, done, last⟩ ∧
      (last.reverse :: done).reverse = cells.reverse ++ cs := by
  cases h with
  | @intro w cs hlead body =>
    obtain ⟨mode₁, hfirst, hbegins, -⟩ := passes_lead start p cells hlead hmode
    -- Without a closing quote nothing behind the opening one ends the cell.
    have hbody := passes_doubleQuotes start ((advanced p w).advance quote) (cs.reverse ++ cells) []
      body
    have hall := hfirst.trans (Passes.cons (step_open start (advanced p w) _ [] hbegins) hbody)
    have hhere : advanced p (w ++ quote :: doubleQuotes body) =
        advanced ((advanced p w).advance quote) (doubleQuotes body) := by
      simp only [advanced, List.foldl_append, List.foldl_cons]
    rw [hhere]
    exact ⟨_, _, hall, by simp⟩

end Scan

end BenchTables.Csv
