import BenchTables.Latex.Markup
import BenchTables.Proofs.Condensed.RoundTrip

/-!
# Markup in a cell

Numbers, quantities and commands stay in the cell and on the line where they are put
(`StaysInCell`), as long as what they are made of does, and they have no white space around them
(`trim_command`).
-/

namespace BenchTables.Latex

/-- A text that ends neither the cell nor the line that it is put in. -/
def StaysInCell (s : String) : Prop :=
  ∀ c ∈ s.toList, c ≠ '&' ∧ c ≠ '\n'

-- The characters of the text are looked at, not all characters there are.
instance (s : String) : Decidable (StaysInCell s) :=
  List.decidableBAll _ s.toList

variable {s t : String}

theorem StaysInCell.separator (h : StaysInCell s) : '&' ∉ s.toList :=
  fun hmem => (h _ hmem).1 rfl

theorem StaysInCell.lineFeed (h : StaysInCell s) : '\n' ∉ s.toList :=
  fun hmem => (h _ hmem).2 rfl

theorem StaysInCell.append (hs : StaysInCell s) (ht : StaysInCell t) : StaysInCell (s ++ t) := by
  intro c hc
  rw [String.toList_append] at hc
  rcases List.mem_append.mp hc with hc | hc
  · exact hs c hc
  · exact ht c hc

theorem StaysInCell.braced (h : StaysInCell s) : StaysInCell (braced s) := by
  unfold Latex.braced
  exact (StaysInCell.append (by decide) h).append (by decide)

theorem StaysInCell.command (hs : StaysInCell s) {arguments : List String}
    (h : ∀ argument ∈ arguments, StaysInCell argument) : StaysInCell (command s arguments) := by
  have hjoin : StaysInCell (String.join (arguments.map Latex.braced)) := by
    intro c hc
    rw [String.toList_join, List.mem_flatMap] at hc
    obtain ⟨part, hpart, hc⟩ := hc
    obtain ⟨argument, hargument, rfl⟩ := List.mem_map.mp hpart
    exact (h argument hargument).braced c hc
  unfold Latex.command
  exact (StaysInCell.append (by decide) hs).append hjoin

/-! ## Numbers -/

theorem staysInCell_of_digit {c : Char} (h : Decimal.isDigit c) : c ≠ '&' ∧ c ≠ '\n' := by
  have hrange := Decimal.toNat_of_isDigit h
  constructor
  · rintro rfl
    exact absurd hrange (by decide)
  · rintro rfl
    exact absurd hrange (by decide)

theorem staysInCell_natText (n : ℕ) : StaysInCell (Decimal.natText n) := by
  intro c hc
  rw [Decimal.natText_toList] at hc
  exact staysInCell_of_digit (Decimal.isDigit_of_mem_digits hc)

theorem staysInCell_twoPlaces (x : Float) : StaysInCell (Decimal.twoPlaces x) := by
  unfold Decimal.twoPlaces
  cases Decimal.BinaryValue.ofFloat x with
  | nan => decide
  | infinite negative => cases negative <;> decide
  | finite negative m e =>
    apply StaysInCell.append
    · cases negative <;> decide
    · intro c hc
      rcases Decimal.isDigit_or_dot_of_mem_hundredthsText hc with hdigit | rfl
      · exact staysInCell_of_digit hdigit
      · decide

/-! ## Building blocks -/

theorem staysInCell_quantity (x : Float) (unit : QuantityUnit) :
    StaysInCell (quantity x unit) := by
  apply StaysInCell.command (by decide)
  intro argument hargument
  rcases List.mem_pair.mp hargument with rfl | rfl
  · exact staysInCell_twoPlaces x
  · cases unit <;> decide

theorem StaysInCell.spanning (h : StaysInCell s) (rows : ℕ) : StaysInCell (spanning rows s) := by
  apply StaysInCell.command (by decide)
  intro argument hargument
  simp only [List.mem_cons, List.not_mem_nil, or_false] at hargument
  rcases hargument with rfl | rfl | rfl
  · exact staysInCell_natText rows
  · decide
  · exact h

theorem StaysInCell.labelCommand (h : StaysInCell s) : StaysInCell (labelCommand s) := by
  apply h.command
  intro argument hargument
  rw [List.mem_singleton.mp hargument]
  decide

/-! ## White space -/

/-- A command with arguments begins with a backslash and ends with a brace. -/
theorem exists_command_toList (name : String) {arguments : List String} (h : arguments ≠ []) :
    ∃ middle, (command name arguments).toList = '\\' :: (middle ++ ['\x7d']) := by
  obtain ⟨others, last, rfl⟩ := (List.eq_nil_or_concat' arguments).resolve_left h
  refine ⟨name.toList ++ (String.join (others.map braced)).toList ++ '\x7b' :: last.toList, ?_⟩
  unfold command
  rw [List.map_append, String.join_append]
  simp [braced]

theorem trim_command (name : String) {arguments : List String} (h : arguments ≠ []) :
    Text.trim (command name arguments) = command name arguments := by
  obtain ⟨middle, htext⟩ := exists_command_toList name h
  exact Text.trim_of_ends htext (by decide) (by decide)

theorem trim_command_rowEnd (name : String) {arguments : List String} (h : arguments ≠ []) :
    Text.trim (command name arguments ++ rowEnd) = command name arguments ++ rowEnd := by
  obtain ⟨middle, htext⟩ := exists_command_toList name h
  have hline : (command name arguments ++ rowEnd).toList =
      '\\' :: (middle ++ ['\x7d', '\\'] ++ ['\\']) := by
    rw [String.toList_append, htext]
    simp [rowEnd]
  exact Text.trim_of_ends hline (by decide) (by decide)

end BenchTables.Latex
